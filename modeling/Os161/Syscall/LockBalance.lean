import Os161.Syscall.File
import Os161.Syscall.Process

set_option autoImplicit false

/-!
# Which locks a system call gives back

`Releases ls m`: every returning run of `m` that starts with the locks `ls` taken by the running
thread ends with these released and every other lock as it was. The rules follow the shape of the
source: taking a lock adds it to the list, releasing it removes it, and a call to a function that
releases what it takes (`Releases []`) can stand anywhere.

All handlers release what they take, with two exceptions, `open` and `read`; for these the rules
give what holds outside the exception (`balanced_sysOpen`, `balanced_sysRead`).
-/

namespace Os161.Syscall.LockBalance

open Os161.Lib.Program
open Os161.Lib.Slots
open Os161.Vfs
open Os161.Proc

variable {α β ι : Type}

/-- The lock table after the locks `ls` have been released. -/
def drop (held : LockName → Option ProcRef) (ls : List LockName) : LockName → Option ProcRef :=
  fun l => if l ∈ ls then none else held l

/-- Started with the locks `ls` taken by the running thread, `m` returns with exactly these
released. -/
def Releases (ls : List LockName) (m : K α) : Prop :=
  ∀ s a s', (∀ l ∈ ls, s.held l = some s.curproc) → Runs m s a s' →
    s'.held = drop s.held ls ∧ s'.curproc = s.curproc

/-- `m` releases what it takes. -/
abbrev Balanced (m : K α) : Prop := Releases [] m

/-! ## Rules -/

theorem drop_nil (held : LockName → Option ProcRef) : drop held [] = held := by
  funext l
  simp [drop]

/-- A program that leaves the lock table alone is balanced. -/
theorem balanced_of_held {m : K α}
    (h : ∀ s a s', Runs m s a s' → s'.held = s.held ∧ s'.curproc = s.curproc) : Balanced m := by
  intro s a s' _ hr
  rw [drop_nil]
  exact h s a s' hr

theorem Balanced.pure (a : α) : Balanced (Pure.pure a : K α) :=
  balanced_of_held fun s b s' h => by
    obtain ⟨-, rfl⟩ := (runs_pure _ _ _ _).1 h
    exact ⟨rfl, rfl⟩

theorem Releases.throw (ls : List LockName) (r : Stop) : Releases ls (MonadExcept.throw r : K α) :=
  fun s a s' _ h => absurd h (runs_throw r s a s')

/-- A balanced call in front of a program that releases `ls`. -/
theorem Releases.bind {ls : List LockName} {m : K α} {f : α → K β} (hm : Balanced m)
    (hf : ∀ a, Releases ls (f a)) : Releases ls (m >>= f) := by
  intro s b s'' hs h
  obtain ⟨a, s', h₁, h₂⟩ := (runs_bind _ _ _ _ _).1 h
  obtain ⟨hheld, hcur⟩ := hm s a s' (fun l hl => absurd hl List.not_mem_nil) h₁
  rw [drop_nil] at hheld
  have hs' : ∀ l ∈ ls, s'.held l = some s'.curproc := by
    intro l hl
    rw [hheld, hcur]
    exact hs l hl
  obtain ⟨h3, h4⟩ := hf a s' b s'' hs' h₂
  exact ⟨by rw [h3, hheld], by rw [h4, hcur]⟩

theorem Releases.ite {ls : List LockName} {c : Prop} [Decidable c] {m m' : K α}
    (hm : Releases ls m) (hm' : Releases ls m') : Releases ls (if c then m else m') := by
  by_cases h : c
  · simpa [h] using hm
  · simpa [h] using hm'

/-- `lock_acquire` in front of a program that releases the lock among others. -/
theorem Releases.acquire {ls : List LockName} {l : LockName} {f : Unit → K α}
    (hf : Releases (l :: ls) (f ())) : Releases ls (lockAcquire l >>= f) := by
  intro s a s'' hs h
  obtain ⟨u, s', h₁, h₂⟩ := (runs_bind _ _ _ _ _).1 h
  obtain ⟨hfree, rfl⟩ := (runs_lockAcquire _ _ _ _).1 h₁
  have hs' : ∀ l' ∈ l :: ls, Function.update s.held l (some s.curproc) l' = some s.curproc := by
    intro l' hl'
    by_cases he : l' = l
    · subst he
      simp
    · rw [Function.update_of_ne he]
      exact hs l' ((List.mem_cons.1 hl').resolve_left he)
  obtain ⟨h3, h4⟩ := hf _ a s'' hs' h₂
  refine ⟨?_, h4⟩
  rw [h3]
  funext l'
  by_cases he : l' = l
  · subst he
    simp [drop, hfree]
  · simp [drop, he]

/-- `lock_release` in front of a program that releases the other locks. -/
theorem Releases.release {ls : List LockName} {l : LockName} {f : Unit → K α} (hl : l ∉ ls)
    (hf : Releases ls (f ())) : Releases (l :: ls) (lockRelease l >>= f) := by
  intro s a s'' hs h
  obtain ⟨u, s', h₁, h₂⟩ := (runs_bind _ _ _ _ _).1 h
  obtain ⟨-, rfl⟩ := (runs_lockRelease _ _ _ _).1 h₁
  have hs' : ∀ l' ∈ ls, Function.update s.held l none l' = some s.curproc := by
    intro l' hl'
    have he : l' ≠ l := fun he => hl (he ▸ hl')
    rw [Function.update_of_ne he]
    exact hs l' (List.mem_cons_of_mem l hl')
  obtain ⟨h3, h4⟩ := hf _ a s'' hs' h₂
  refine ⟨?_, h4⟩
  rw [h3]
  funext l'
  by_cases he : l' = l
  · subst he
    simp [drop]
  · simp [drop, he]

/-- The order of the list does not matter. -/
theorem Releases.swap {l l' : LockName} {m : K α} (h : Releases [l, l'] m) :
    Releases [l', l] m := by
  intro s a s' hs hr
  obtain ⟨h1, h2⟩ := h s a s' (fun k hk => hs k (by simp at hk ⊢; tauto)) hr
  refine ⟨?_, h2⟩
  rw [h1]
  funext k
  by_cases hk : k = l <;> by_cases hk' : k = l' <;> simp [drop, hk, hk']

/-- Returning after the last release. -/
theorem Releases.done {l : LockName} (a : α) :
    Releases [l] (lockRelease l >>= fun _ => (Pure.pure a : K α)) :=
  Releases.release (by simp) (Balanced.pure a)

/-- `lock_release` at the end of a program. -/
theorem Releases.last (l : LockName) : Releases [l] (lockRelease l) := by
  have h : Releases [l] (lockRelease l >>= fun u => (Pure.pure u : K Unit)) :=
    Releases.release (by simp) (Balanced.pure ())
  simpa using h

theorem Balanced.forEach {body : ι → K Unit} (hb : ∀ i, Balanced (body i)) (l : List ι) :
    Balanced (forEach body l) := by
  induction l with
  | nil => exact Balanced.pure ()
  | cons i is ih => exact Releases.bind (hb i) fun _ => ih

theorem Balanced.scanFirst {test : ι → K Bool} (ht : ∀ i, Balanced (test i)) (l : List ι) :
    Balanced (scanFirst test l) := by
  induction l with
  | nil => exact Balanced.pure none
  | cons i is ih =>
      exact Releases.bind (ht i) fun _ => Releases.ite (Balanced.pure (some i)) ih

theorem Balanced.scanLast {test : ι → K Bool} (ht : ∀ i, Balanced (test i)) (l : List ι)
    (found : Option ι) : Balanced (scanLast test found l) := by
  induction l generalizing found with
  | nil => exact Balanced.pure found
  | cons i is ih => exact Releases.bind (ht i) fun _ => ih _

/-! ## Primitives -/

theorem balanced_get : Balanced (get : K Kernel) :=
  balanced_of_held fun s a s' h => by
    obtain ⟨-, rfl⟩ := (runs_get _ _ _).1 h
    exact ⟨rfl, rfl⟩

/-- Updates of other fields. -/
theorem balanced_modify {f : Kernel → Kernel}
    (h : ∀ s, (f s).held = s.held ∧ (f s).curproc = s.curproc) : Balanced (modify f : K Unit) :=
  balanced_of_held fun s u s' hr => by
    rw [(runs_modify _ _ _ _).1 hr]
    exact h s

theorem balanced_readFile (r : FileRef) : Balanced (readFile r) :=
  balanced_of_held fun s f s' h => by
    obtain ⟨-, rfl⟩ := (runs_readFile _ _ _ _).1 h
    exact ⟨rfl, rfl⟩

theorem balanced_writeFile (r : FileRef) (f : File) : Balanced (writeFile r f) :=
  balanced_of_held fun s u s' h => by
    obtain ⟨-, rfl⟩ := (runs_writeFile _ _ _ _ _).1 h
    exact ⟨rfl, rfl⟩

theorem balanced_readCell (c : CellRef) : Balanced (readCell c) :=
  balanced_of_held fun s v s' h => by
    obtain ⟨-, rfl⟩ := (runs_readCell _ _ _ _).1 h
    exact ⟨rfl, rfl⟩

theorem balanced_writeCell (c : CellRef) (v : Int) : Balanced (writeCell c v) :=
  balanced_of_held fun s u s' h => by
    obtain ⟨-, rfl⟩ := (runs_writeCell _ _ _ _ _).1 h
    exact ⟨rfl, rfl⟩

theorem balanced_freeCell (x : Option CellRef) : Balanced (freeCell x) :=
  balanced_of_held fun s u s' h => by
    obtain ⟨cs, rfl⟩ := runs_freeCell h
    exact ⟨rfl, rfl⟩

theorem balanced_readProc (p : ProcRef) : Balanced (readProc p) :=
  balanced_of_held fun s P s' h => by
    obtain ⟨-, rfl⟩ := (runs_readProc _ _ _ _).1 h
    exact ⟨rfl, rfl⟩

theorem balanced_writeProc (p : ProcRef) (P : Os161.Proc) : Balanced (writeProc p P) :=
  balanced_of_held fun s u s' h => by
    obtain ⟨-, rfl⟩ := (runs_writeProc _ _ _ _ _).1 h
    exact ⟨rfl, rfl⟩

theorem balanced_readTable (p : ProcRef) : Balanced (readTable p) :=
  balanced_of_held fun s t s' h => by
    obtain ⟨-, rfl⟩ := (runs_readTable _ _ _ _).1 h
    exact ⟨rfl, rfl⟩

theorem balanced_writeTable (p : ProcRef) (t : PFileTable) : Balanced (writeTable p t) :=
  balanced_of_held fun s u s' h => by
    obtain ⟨P, -, rfl⟩ := (runs_writeTable _ _ _ _ _).1 h
    exact ⟨rfl, rfl⟩

theorem balanced_setSlot (p : ProcRef) (i : Fin openMax) (x : Option FileRef) :
    Balanced (setSlot p i x) :=
  Releases.bind (balanced_readTable p) fun _ => balanced_writeTable p _

theorem balanced_bumpSize (p : ProcRef) (d : Int) : Balanced (bumpSize p d) :=
  Releases.bind (balanced_readTable p) fun _ => balanced_writeTable p _

theorem balanced_curproc : Balanced curproc :=
  Releases.bind balanced_get fun _ => Balanced.pure _

theorem balanced_vopIncref (v : VnodeRef) : Balanced (vopIncref v) :=
  balanced_modify fun _ => ⟨rfl, rfl⟩

theorem balanced_vopDecref (x : Option VnodeRef) : Balanced (vopDecref x) := by
  cases x with
  | none => exact Releases.throw [] _
  | some v => exact balanced_modify fun _ => ⟨rfl, rfl⟩

theorem balanced_lockDestroy (l : LockName) : Balanced (lockDestroy l) :=
  Releases.bind balanced_get fun _ => Releases.ite (Balanced.pure ()) (Releases.throw [] _)

/-- Taking the lock of a file. -/
theorem Releases.acquireFile {ls : List LockName} {r : FileRef} {f : Unit → K α}
    (hf : Releases (.file r :: ls) (f ())) : Releases ls (lockFile r >>= f) := by
  have h : Releases ls (readFile r >>= fun _ => lockAcquire (.file r) >>= f) :=
    Releases.bind (balanced_readFile r) fun _ => Releases.acquire hf
  simpa [lockFile] using h

/-! ## File tables -/

theorem balanced_createFile (alloc : Bool) (path : String) : Balanced (createFile alloc path) := by
  apply balanced_of_held
  intro s r s' h
  simp only [createFile, runs_ite, runs_bind, runs_allocCell, runs_allocFile, runs_pure] at h
  rcases h with ⟨-, c, s₁, ⟨-, rfl⟩, g, s₂, ⟨-, rfl⟩, -, rfl⟩ | ⟨-, -, rfl⟩
  · exact ⟨rfl, rfl⟩
  · exact ⟨rfl, rfl⟩

theorem balanced_freeFile (r : FileRef) : Balanced (freeFile r) :=
  balanced_modify fun _ => ⟨rfl, rfl⟩

theorem balanced_destroyFile (r : FileRef) : Balanced (destroyFile r) := by
  apply Releases.bind (balanced_readFile r)
  intro f
  apply Releases.bind (balanced_vopDecref _)
  intro _
  apply Releases.bind (balanced_freeCell _)
  intro _
  exact Releases.bind (balanced_lockDestroy _) fun _ => balanced_freeFile r

theorem balanced_destroyDup (r : FileRef) : Balanced (destroyDup r) := by
  apply Releases.bind (balanced_readFile r)
  intro f
  exact Releases.bind (balanced_lockDestroy _) fun _ => balanced_freeFile r

theorem balanced_increfCopied (x : Option VnodeRef) : Balanced (increfCopied x) := by
  cases x with
  | none => exact Balanced.pure ()
  | some v => exact balanced_vopIncref v

theorem balanced_copySeek (x y : Option CellRef) : Balanced (copySeek x y) := by
  cases x with
  | none => exact Balanced.pure ()
  | some c =>
      cases y with
      | none => exact Balanced.pure ()
      | some d => exact Releases.bind (balanced_readCell c) fun v => balanced_writeCell d v

theorem balanced_copyFile (alloc : Bool) (r : FileRef) : Balanced (copyFile alloc r) := by
  apply Releases.acquireFile
  apply Releases.bind (balanced_readFile r)
  intro f
  apply Releases.bind (balanced_createFile alloc _)
  intro x
  cases x with
  | none => exact Releases.throw _ _
  | some g =>
      apply Releases.bind (balanced_readFile g)
      intro n
      apply Releases.bind (balanced_writeFile r _)
      intro _
      apply Releases.bind (balanced_increfCopied _)
      intro _
      apply Releases.bind (balanced_copySeek _ _)
      intro _
      apply Releases.bind (balanced_writeFile g _)
      intro _
      exact Releases.done g

theorem balanced_getNextFd : Balanced getNextFd := by
  apply Releases.acquire
  apply Releases.bind balanced_get
  intro s
  refine Releases.bind (balanced_modify fun _ => ⟨rfl, rfl⟩) fun _ => ?_
  exact Releases.done _

theorem balanced_putFileOnGtable (r : FileRef) : Balanced (putFileOnGtable r) := by
  apply Releases.acquire
  apply Releases.bind balanced_get
  intro s
  apply Releases.bind (balanced_readFile r)
  intro f
  refine Releases.ite ?_ (Releases.bind (Balanced.pure _) fun fd => Releases.done fd)
  have hend : Releases [.globalFile]
      ((Pure.pure f.globalFd : K Int) >>= fun fd => lockRelease .globalFile >>= fun _ =>
        Pure.pure fd) :=
    Releases.bind (Balanced.pure _) fun fd => Releases.done fd
  cases firstFree s.gft.openFiles with
  | none => exact hend
  | some i => exact Releases.bind (balanced_modify fun _ => ⟨rfl, rfl⟩) fun _ => hend

theorem balanced_testSlot (p : File → Bool) (x : Option FileRef) : Balanced (testSlot p x) := by
  cases x with
  | none => exact Balanced.pure false
  | some r => exact Releases.bind (balanced_readFile r) fun f => Balanced.pure _

theorem balanced_closeGlobalSlot (i : Fin openMax) (r : FileRef) :
    Balanced (closeGlobalSlot i r) := by
  apply Releases.bind (balanced_readFile r)
  intro f
  refine Releases.ite ?_ (balanced_writeFile r _)
  refine Releases.bind (balanced_modify fun _ => ⟨rfl, rfl⟩) fun _ => ?_
  exact Releases.bind (balanced_destroyFile r) fun _ => balanced_modify fun _ => ⟨rfl, rfl⟩

theorem balanced_closeFileOnGtable (fd : Int) : Balanced (closeFileOnGtable fd) := by
  apply Releases.acquire
  apply Releases.bind balanced_get
  intro s
  apply Releases.bind (Balanced.scanLast (fun i => balanced_testSlot _ _) _ _)
  intro found
  cases found with
  | none => exact Releases.last _
  | some i =>
      cases h : s.gft.openFiles i with
      | none => simpa [h] using Releases.last LockName.globalFile
      | some r =>
          simp only [h]
          exact Releases.bind (balanced_closeGlobalSlot i r) fun _ => Releases.last _

theorem balanced_pFiletableLookup (p : ProcRef) (fd : Int) : Balanced (pFiletableLookup p fd) := by
  apply Releases.acquire
  apply Releases.bind (balanced_readTable p)
  intro t
  apply Releases.bind (Balanced.scanFirst (fun i => balanced_testSlot _ _) _)
  intro found
  exact Releases.done _

theorem balanced_putFileOnPtable (p : ProcRef) (r : FileRef) : Balanced (putFileOnPtable p r) := by
  apply Releases.acquire
  apply Releases.bind (balanced_readTable p)
  intro t
  cases firstFree t.files with
  | none => exact Releases.done _
  | some i =>
      apply Releases.bind (balanced_writeTable p _)
      intro _
      apply Releases.release (by simp)
      exact Releases.bind (balanced_readFile r) fun f => Balanced.pure _

theorem balanced_closeSlot (p : ProcRef) (i : Fin openMax) (r : FileRef) (f : File) :
    Balanced (closeSlot p i r f) := by
  refine Releases.ite ?_ ?_
  · exact Releases.bind (balanced_destroyDup r) fun _ => balanced_setSlot p i none
  · exact Releases.bind (balanced_closeFileOnGtable _) fun _ => balanced_setSlot p i none

theorem balanced_closeFileRound (p : ProcRef) (fd : Int) (i : Fin openMax) :
    Balanced (closeFileRound p fd i) := by
  apply Releases.bind (balanced_readTable p)
  intro t
  cases t.files i with
  | none => exact Balanced.pure ()
  | some r =>
      apply Releases.bind (balanced_readFile r)
      intro f
      exact Releases.ite (balanced_closeSlot p i r f) (Balanced.pure ())

theorem balanced_closeFileOnPtable (p : ProcRef) (fd : Int) : Balanced (closeFileOnPtable p fd) :=
  Releases.bind (Balanced.forEach (balanced_closeFileRound p fd) _) fun _ => balanced_bumpSize p _

theorem balanced_dupFile (alloc : Bool) (p : ProcRef) (oldfd newfd : Int) :
    Balanced (dupFile alloc p oldfd newfd) := by
  apply Releases.bind (balanced_pFiletableLookup p oldfd)
  intro x
  cases x with
  | none => exact Releases.throw _ _
  | some r =>
      apply Releases.bind (balanced_copyFile alloc r)
      intro g
      apply Releases.bind (balanced_readFile g)
      intro n
      apply Releases.bind (balanced_freeCell _)
      intro _
      apply Releases.bind (balanced_readFile r)
      intro f
      exact Releases.bind (balanced_writeFile g _) fun _ => Balanced.pure g

theorem balanced_copyRound (p q : ProcRef) (i : Fin openMax) : Balanced (copyRound p q i) := by
  apply Releases.bind (balanced_readTable p)
  intro t
  cases t.files i with
  | none => exact Balanced.pure ()
  | some r =>
      apply Releases.acquireFile
      apply Releases.bind (balanced_readFile r)
      intro f
      apply Releases.bind (balanced_increfCopied _)
      intro _
      apply Releases.bind (balanced_writeFile r _)
      intro _
      exact Releases.release (by simp) (balanced_setSlot q i _)

theorem balanced_copyPFiletable (p q : ProcRef) : Balanced (copyPFiletable p q) := by
  apply Releases.acquire
  by_cases hpq : q = p
  · -- the second acquire waits for the first
    subst hpq
    intro s a s' hs h
    obtain ⟨u, s₁, h₁, -⟩ := (runs_bind _ _ _ _ _).1 h
    obtain ⟨hfree, -⟩ := (runs_lockAcquire _ _ _ _).1 h₁
    rw [hs _ List.mem_cons_self] at hfree
    cases hfree
  · apply Releases.acquire
    apply Releases.bind (Balanced.forEach (balanced_copyRound p q) _)
    intro _
    exact Releases.release (by simpa using hpq) (Releases.last _)

theorem balanced_closeAllSlot (p : ProcRef) (i : Fin openMax) (r : FileRef) :
    Balanced (closeAllSlot p i r) := by
  apply Releases.acquireFile
  apply Releases.bind (balanced_readFile r)
  intro f
  refine Releases.ite ?_ (Releases.last _)
  cases f.fileVnode with
  | none =>
      refine Releases.ite ?_ ?_
      · apply Releases.bind (balanced_writeFile r _)
        intro _
        exact Releases.release (by simp) (balanced_setSlot p i none)
      · apply Releases.release (by simp)
        exact Releases.bind (balanced_destroyDup r) fun _ => balanced_setSlot p i none
  | some v =>
      refine Releases.ite ?_ ?_
      · apply Releases.bind (balanced_vopDecref _)
        intro _
        apply Releases.bind (balanced_writeFile r _)
        intro _
        exact Releases.release (by simp) (balanced_setSlot p i none)
      · apply Releases.release (by simp)
        exact Releases.bind (balanced_closeFileOnGtable _) fun _ => balanced_setSlot p i none

theorem balanced_closeAllRound (p : ProcRef) (i : Fin openMax) : Balanced (closeAllRound p i) := by
  apply Releases.bind (balanced_readTable p)
  intro t
  have hend : Balanced (readTable p >>= fun t => writeTable p { t with size := 0 }) :=
    Releases.bind (balanced_readTable p) fun _ => balanced_writeTable p _
  cases t.files i with
  | none => exact hend
  | some r => exact Releases.bind (balanced_closeAllSlot p i r) fun _ => hend

theorem balanced_closeAllFilesPtable (p : ProcRef) : Balanced (closeAllFilesPtable p) := by
  apply Releases.acquire
  exact Releases.bind (Balanced.forEach (balanced_closeAllRound p) _) fun _ => Releases.last _

theorem balanced_pFiletableDestroy (p : ProcRef) : Balanced (pFiletableDestroy p) :=
  Releases.bind (balanced_closeAllFilesPtable p) fun _ => balanced_lockDestroy _

/-! ## Processes -/

theorem balanced_isProcExited (pid : Int) : Balanced (isProcExited pid) :=
  Releases.acquire (Releases.bind balanced_get fun _ => Releases.done _)

theorem balanced_getExitCode (ppid pid : Int) : Balanced (getExitCode ppid pid) := by
  refine Releases.acquire (Releases.bind balanced_get fun s => ?_)
  exact Releases.bind (balanced_modify fun _ => ⟨rfl, rfl⟩) fun _ => Releases.done _

theorem balanced_remAllExitCodes (pid : Int) : Balanced (remAllExitCodes pid) :=
  balanced_of_held fun s a s' h => by
    rw [runs_remAllExitCodes h]
    exact ⟨rfl, rfl⟩

theorem balanced_postToParent (q : ProcRef) (alloc : Bool) (exitcode : BitVec 32)
    (P : Os161.Proc) : Balanced (postToParent q alloc exitcode P) := by
  refine Releases.bind (balanced_readProc q) fun _ => Releases.acquire ?_
  refine Releases.bind ?_ fun _ => Releases.last _
  apply balanced_of_held
  intro s a s' h
  obtain ⟨codes, rfl⟩ := runs_postExitCode h
  exact ⟨rfl, rfl⟩

theorem balanced_removeProcFromProctable (pid : Int) :
    Balanced (removeProcFromProctable pid) :=
  balanced_of_held fun s a s' h => by
    rcases runs_removeProcFromProctable h with ⟨-, rfl⟩ | ⟨i, -, rfl⟩
    · exact ⟨rfl, rfl⟩
    · exact ⟨rfl, rfl⟩

theorem balanced_getNextPid : Balanced getNextPid := by
  refine Releases.acquire (Releases.bind balanced_get fun s => ?_)
  exact Releases.bind (balanced_modify fun _ => ⟨rfl, rfl⟩) fun _ => Releases.done _

theorem balanced_putProcOnProctable (p : Option ProcRef) : Balanced (putProcOnProctable p) := by
  refine Releases.acquire (Releases.bind balanced_get fun s => ?_)
  cases firstFree s.ptable.procArray with
  | none => exact Releases.done _
  | some i => exact Releases.bind (balanced_modify fun _ => ⟨rfl, rfl⟩) fun _ => Releases.done _

theorem balanced_testPid (pid : Int) (x : Option ProcRef) : Balanced (testPid pid x) := by
  cases x with
  | none => exact Balanced.pure false
  | some p => exact Releases.bind (balanced_readProc p) fun P => Balanced.pure _

theorem balanced_getReferenceByPid (pid : Int) : Balanced (getReferenceByPid pid) := by
  refine Releases.acquire (Releases.bind balanced_get fun s => ?_)
  exact Releases.bind (Balanced.scanLast (fun i => balanced_testPid _ _) _ _) fun _ =>
    Releases.done _

theorem balanced_procCreate (alloc : Bool) : Balanced (procCreate alloc) := by
  refine Releases.ite ?_ (Balanced.pure none)
  refine Releases.bind (Releases.bind balanced_get fun _ => Balanced.pure _) fun t => ?_
  apply Releases.bind balanced_get
  intro s
  exact Releases.bind (balanced_modify fun _ => ⟨rfl, rfl⟩) fun _ => Balanced.pure _

theorem balanced_procCreateRunprogram (alloc : Bool) : Balanced (procCreateRunprogram alloc) := by
  apply Releases.bind (balanced_procCreate alloc)
  intro x
  cases x with
  | none => exact Balanced.pure none
  | some q =>
      apply Releases.bind balanced_curproc
      intro p
      apply Releases.bind (balanced_readProc p)
      intro P
      apply Releases.bind (balanced_readProc q)
      intro Q
      cases P.pCwd with
      | none => exact Balanced.pure _
      | some v =>
          refine Releases.bind (balanced_modify fun _ => ⟨rfl, rfl⟩) fun _ => ?_
          exact Releases.bind (balanced_writeProc q _) fun _ => Balanced.pure _

theorem balanced_decrefCwd (x : Option VnodeRef) : Balanced (decrefCwd x) := by
  cases x with
  | none => exact Balanced.pure ()
  | some v => exact balanced_modify fun _ => ⟨rfl, rfl⟩

theorem balanced_procFree (p : ProcRef) : Balanced (procFree p) := by
  refine Releases.bind (balanced_readProc p) fun P => Releases.ite (Releases.throw _ _) ?_
  exact Releases.bind (balanced_lockDestroy _) fun _ => balanced_modify fun _ => ⟨rfl, rfl⟩

theorem balanced_procDestroy (p : ProcRef) : Balanced (procDestroy p) := by
  apply Releases.ite (Releases.throw _ _)
  apply Releases.bind (balanced_readProc p)
  intro P
  apply Releases.bind (balanced_decrefCwd _)
  intro _
  refine Releases.ite ?_ (balanced_procFree p)
  exact Releases.bind (balanced_pFiletableDestroy p) fun _ => balanced_procFree p

theorem balanced_threadFork (p : ProcRef) (result : Int) : Balanced (threadFork p result) := by
  refine Releases.ite ?_ (Balanced.pure _)
  apply Releases.bind (balanced_readProc p)
  intro P
  exact Releases.bind (balanced_writeProc p _) fun _ => Balanced.pure _

/-! ## Handlers -/

theorem releases_installFile (p : ProcRef) (r : FileRef) (v : VnodeRef) :
    Releases [.ops p] (installFile p r v) := by
  apply Releases.bind (balanced_vopIncref v)
  intro _
  apply Releases.bind (balanced_readFile r)
  intro f
  apply Releases.bind balanced_getNextFd
  intro fd
  apply Releases.bind (balanced_writeFile r _)
  intro _
  apply Releases.bind (balanced_putFileOnGtable r)
  intro _
  apply Releases.bind (balanced_putFileOnPtable p r)
  intro _
  exact Releases.done fd

/-- With an access mode that makes sense, `open` gives its lock back on every path. -/
theorem releases_openPath {flags : BitVec 32} (h : accessOf flags ≠ none) (p : ProcRef)
    (env : OpenEnv) : Releases [.ops p] (openPath p flags env) := by
  apply Releases.bind (balanced_createFile _ _)
  intro x
  cases x with
  | none => exact Releases.done _
  | some r =>
      cases hacc : accessOf flags with
      | none => exact absurd hacc h
      | some rw =>
          apply Releases.bind (balanced_readFile r)
          intro f
          apply Releases.bind (balanced_writeFile r _)
          intro _
          cases env.vfsOpen with
          | error tst => exact Releases.done _
          | ok v => exact releases_installFile p r v

theorem balanced_sysOpen {flags : BitVec 32} (h : accessOf flags ≠ none)
    (filename : Option UserPtr) (env : OpenEnv) : Balanced (sysOpen filename flags env) := by
  apply Releases.bind balanced_get
  intro s
  refine Releases.ite (Balanced.pure _) (Releases.ite (Balanced.pure _) ?_)
  refine Releases.bind balanced_curproc fun p => Releases.acquire ?_
  refine Releases.bind (balanced_readTable p) fun t => ?_
  refine Releases.ite (Releases.done _) (Releases.ite (Releases.done _) ?_)
  exact Releases.ite (Releases.done _) (releases_openPath h p env)

theorem balanced_sysClose (fd : Int) : Balanced (sysClose fd) := by
  refine Releases.bind balanced_curproc fun p => Releases.acquire ?_
  refine Releases.bind (balanced_pFiletableLookup p fd) fun x => ?_
  cases x with
  | none => exact Releases.done _
  | some r =>
      refine Releases.bind (balanced_readFile r) fun f => Releases.ite ?_ ?_
      · apply Releases.bind (balanced_readTable p)
        intro t
        exact Releases.bind (balanced_writeTable p _) fun _ => Releases.done _
      · exact Releases.bind (balanced_closeFileOnPtable p fd) fun _ => Releases.done _

theorem releases_dupInto (p : ProcRef) (oldfd newfd : Int) (alloc : Bool) :
    Releases [.ops p] (dupInto p oldfd newfd alloc) := by
  apply Releases.bind (balanced_dupFile _ _ _ _)
  intro g
  refine Releases.bind (balanced_putFileOnPtable p g) fun n => Releases.release (by simp) ?_
  exact Releases.ite (Balanced.pure _) (Balanced.pure _)

theorem balanced_sysDup2 (oldfd newfd : Int) (alloc : Bool) :
    Balanced (sysDup2 oldfd newfd alloc) := by
  refine Releases.ite (Balanced.pure _) (Releases.ite (Balanced.pure _) ?_)
  refine Releases.bind balanced_curproc fun p => Releases.acquire ?_
  refine Releases.bind (balanced_pFiletableLookup p oldfd) fun x => ?_
  apply Releases.bind (balanced_pFiletableLookup p newfd)
  intro y
  apply Releases.ite (Releases.done _)
  apply Releases.ite (releases_dupInto p oldfd newfd alloc)
  exact Releases.bind (balanced_closeFileOnPtable p newfd) fun _ =>
    releases_dupInto p oldfd newfd alloc

theorem releases_readData (r : FileRef) (f : File) (buflen : Nat) (env : ReadEnv) :
    Releases [.file r] (readData r f buflen env) := by
  unfold readData
  cases f.seekPos with
  | none => exact Releases.throw _ _
  | some c =>
      cases f.fileVnode with
      | none => exact Releases.throw _ _
      | some v =>
          apply Releases.bind (balanced_readCell c)
          intro _
          refine Releases.ite (Releases.done _) (Releases.ite (Releases.done _) ?_)
          exact Releases.bind (balanced_writeCell c _) fun _ => Releases.done _

/-- With a buffer, `read` gives its locks back on every path. -/
theorem balanced_sysRead {env : ReadEnv} (h : env.kmalloc = true) (fd : Int)
    (buf : Option UserPtr) (buflen : Nat) : Balanced (sysRead fd buf buflen env) := by
  apply Releases.ite (Balanced.pure _)
  refine Releases.bind balanced_curproc fun p => Releases.acquire ?_
  refine Releases.bind (balanced_pFiletableLookup p fd) fun x => ?_
  cases x with
  | none => exact Releases.done _
  | some r =>
      refine Releases.acquireFile (Releases.bind (balanced_readFile r) fun f => ?_)
      apply Releases.bind (balanced_readTable p)
      intro t
      refine Releases.ite (Releases.release (by simp) (Releases.done _)) (Releases.ite ?_ ?_)
      · refine Releases.release (by simp) (Releases.release (by simp) ?_)
        refine Releases.ite ?_ (Balanced.pure _)
        exact Releases.ite (Releases.ite (Balanced.pure _) (Balanced.pure _)) (Balanced.pure _)
      · refine Releases.swap (Releases.release (by simp) ?_)
        rw [if_neg (by simp [h])]
        exact releases_readData r f buflen env

theorem releases_writeConsole (r : FileRef) (env : WriteEnv) :
    Releases [.file r] (writeConsole r env) :=
  Releases.ite (Releases.done _) (Releases.ite (Releases.done _) (Releases.done _))

theorem releases_writeData (r : FileRef) (f : File) (buflen : Nat) (env : WriteEnv) :
    Releases [.file r] (writeData r f buflen env) := by
  refine Releases.ite (Releases.done _) (Releases.ite (Releases.done _) ?_)
  cases f.seekPos with
  | none => exact Releases.throw _ _
  | some c =>
      cases f.fileVnode with
      | none => exact Releases.throw _ _
      | some v =>
          refine Releases.bind (balanced_readCell c) fun _ => Releases.ite (Releases.done _) ?_
          exact Releases.bind (balanced_writeCell c _) fun _ => Releases.done _

theorem balanced_sysWrite (fd : Int) (buf : Option UserPtr) (buflen : Nat) (env : WriteEnv) :
    Balanced (sysWrite fd buf buflen env) := by
  apply Releases.ite (Balanced.pure _)
  refine Releases.bind balanced_curproc fun p => Releases.acquire ?_
  refine Releases.bind (balanced_pFiletableLookup p fd) fun x => ?_
  cases x with
  | none => exact Releases.done _
  | some r =>
      refine Releases.acquireFile (Releases.bind (balanced_readFile r) fun f => ?_)
      apply Releases.bind (balanced_readTable p)
      intro t
      refine Releases.ite (Releases.release (by simp) (Releases.done _)) (Releases.ite ?_ ?_)
      · refine Releases.ite ?_ (Releases.release (by simp) (Releases.done _))
        exact Releases.swap (Releases.release (by simp) (releases_writeConsole r env))
      · exact Releases.swap (Releases.release (by simp) (releases_writeData r f buflen env))

theorem releases_lseekStore (r : FileRef) (f : File) (pos whence : Int) (env : LseekEnv) :
    Releases [.file r] (lseekStore r f pos whence env) := by
  have hcur : Balanced (seekCur whence f.seekPos) := by
    refine Releases.ite ?_ (Balanced.pure _)
    cases f.seekPos with
    | none => exact Releases.throw _ _
    | some c => exact balanced_readCell c
  apply Releases.bind hcur
  intro cur
  cases seekTarget whence cur env.stSize pos with
  | none => exact Releases.done _
  | some newPos =>
      apply Releases.ite (Releases.done _)
      cases f.seekPos with
      | none => exact Releases.throw _ _
      | some c => exact Releases.bind (balanced_writeCell c _) fun _ => Releases.done _

theorem balanced_lseekFound (r : FileRef) (pos whence : Int) (env : LseekEnv) :
    Balanced (lseekFound r pos whence env) := by
  refine Releases.acquireFile (Releases.bind (balanced_readFile r) fun f => ?_)
  refine Releases.ite (Releases.done _) (Releases.ite (Releases.throw _ _) ?_)
  refine Releases.ite (Releases.done _) (Releases.ite (Releases.throw _ _) ?_)
  exact Releases.ite (Releases.done _) (releases_lseekStore r f pos whence env)

theorem balanced_sysLseek (fd pos whence : Int) (env : LseekEnv) :
    Balanced (sysLseek fd pos whence env) := by
  apply Releases.ite (Balanced.pure _)
  refine Releases.bind balanced_curproc fun p => Releases.acquire ?_
  refine Releases.bind (balanced_pFiletableLookup p fd) fun x => Releases.release (by simp) ?_
  cases x with
  | none => exact Balanced.pure _
  | some r => exact balanced_lseekFound r pos whence env

theorem balanced_sysChdir (copyinstr vfsChdir : Int) : Balanced (sysChdir copyinstr vfsChdir) :=
  Releases.acquire (Releases.ite (Releases.done _) (Releases.ite (Releases.done _)
    (Releases.done _)))

theorem balanced_sysGetcwd (buf : Option UserPtr) (buflen : Nat) (copyinstr vfsGetcwd : Int)
    (uioResid : Nat) : Balanced (sysGetcwd buf buflen copyinstr vfsGetcwd uioResid) := by
  apply Releases.ite (Balanced.pure _)
  refine Releases.bind balanced_curproc fun p => Releases.acquire ?_
  exact Releases.ite (Releases.done _) (Releases.ite (Releases.done _) (Releases.done _))

theorem balanced_sysGetpid : Balanced sysGetpid := by
  refine Releases.bind balanced_curproc fun p => Releases.acquire ?_
  exact Releases.bind (balanced_readProc p) fun P => Releases.done _

theorem releases_forkInto (q : ProcRef) (env : ForkEnv) : Balanced (forkInto q env) := by
  refine Releases.bind balanced_curproc fun p => Releases.acquire ?_
  refine Releases.bind balanced_getNextPid fun pid => ?_
  apply Releases.bind (balanced_readProc p)
  intro P
  apply Releases.bind (balanced_readProc q)
  intro Q
  refine Releases.bind (balanced_writeProc q _) fun _ => Releases.ite ?_ ?_
  · exact Releases.bind (balanced_procDestroy q) fun _ => Releases.done _
  · apply Releases.bind (balanced_readProc q)
    intro Q'
    apply Releases.bind (balanced_writeProc q _)
    intro _
    refine Releases.bind (balanced_copyPFiletable p q) fun _ => Releases.release (by simp) ?_
    refine Releases.bind (balanced_putProcOnProctable _) fun _ => ?_
    apply Releases.bind (balanced_threadFork q _)
    intro err
    exact Releases.ite (Balanced.pure _) (Balanced.pure _)

theorem balanced_sysFork (env : ForkEnv) : Balanced (sysFork env) := by
  apply Releases.bind balanced_get
  intro s
  refine Releases.ite (Balanced.pure _) (Releases.ite (Balanced.pure _) ?_)
  apply Releases.bind (balanced_procCreateRunprogram _)
  intro x
  cases x with
  | none => exact Balanced.pure _
  | some q => exact releases_forkInto q env

theorem balanced_threadExit : Balanced threadExit := by
  refine Releases.bind balanced_curproc fun p => Releases.bind (balanced_readProc p) fun P => ?_
  apply Releases.ite (Releases.throw _ _)
  exact Releases.bind (balanced_writeProc p _) fun _ => balanced_procDestroy p

/-- The end of `_exit` takes the `ops_lock` as taken and gives it back. -/
theorem releases_exitEnd (p : ProcRef) (P : Os161.Proc) : Releases [.ops p] (exitEnd p P) := by
  apply Releases.bind (balanced_removeProcFromProctable P.pid)
  intro _
  exact Releases.release (by simp) balanced_threadExit

theorem balanced_sysExit (exitcode : BitVec 32) (alloc : Bool) :
    Balanced (sysExit exitcode alloc) := by
  refine Releases.bind balanced_curproc fun p => Releases.acquire ?_
  refine Releases.bind (balanced_readProc p) fun P => ?_
  apply Releases.bind (balanced_getReferenceByPid P.ppid)
  intro parent
  apply Releases.bind (balanced_remAllExitCodes P.pid)
  intro _
  cases parent with
  | none => exact releases_exitEnd p P
  | some q => exact Releases.bind (balanced_postToParent q alloc exitcode P) fun _ =>
      releases_exitEnd p P

/-- The loop of `waitpid` gives the `ops_lock` up in `cv_wait` and takes it again. -/
theorem releases_waitLoop (p : ProcRef) (pid : Int) {k : K α} (hk : Releases [.ops p] k) :
    ∀ wakes : List ExitCodes, Releases [.ops p] (waitLoop p pid wakes >>= fun _ => k)
  | [] => by
      simp only [waitLoop, bind_assoc]
      apply Releases.bind (balanced_isProcExited pid)
      intro b
      cases b with
      | true => simpa using hk
      | false =>
          intro s a s' _ h
          obtain ⟨u, s₁, h₁, -⟩ := (runs_bind _ _ _ _ _).1 h
          exact absurd h₁ (runs_throw _ _ _ _)
  | codes :: wakes => by
      simp only [waitLoop, bind_assoc]
      apply Releases.bind (balanced_isProcExited pid)
      intro b
      cases b with
      | true => simpa using hk
      | false =>
          simp only [Bool.false_eq_true, if_false, bind_assoc]
          apply Releases.release (by simp)
          refine Releases.bind (balanced_modify fun _ => ⟨rfl, rfl⟩) fun _ => ?_
          exact Releases.acquire (releases_waitLoop p pid hk wakes)

theorem releases_waitChild (p : ProcRef) (P : Os161.Proc) (child : ProcRef) (pid : Int)
    (status : StatusArg) (wakes : List ExitCodes) :
    Releases [.ops p] (waitChild p P child pid status wakes) := by
  apply Releases.bind (balanced_readProc child)
  intro _
  by_cases hc : child = p
  · -- the caller's own lock is already taken: the call does not return
    subst hc
    intro s a s' hs h
    obtain ⟨u, s₁, h₁, -⟩ := (runs_bind _ _ _ _ _).1 h
    obtain ⟨hfree, -⟩ := (runs_lockAcquire _ _ _ _).1 h₁
    rw [hs _ List.mem_cons_self] at hfree
    cases hfree
  · refine Releases.acquire (Releases.bind (balanced_readProc child) fun C => ?_)
    apply Releases.ite (Releases.release (by simpa using hc) (Releases.done _))
    apply Releases.release (by simpa using hc)
    refine releases_waitLoop p pid ?_ wakes
    apply Releases.bind (balanced_getExitCode _ _)
    intro code
    exact Releases.ite (Releases.done _) (Releases.done _)

theorem releases_waitFound (p : ProcRef) (P : Os161.Proc) (child : Option ProcRef) (pid : Int)
    (status : StatusArg) (wakes : List ExitCodes) :
    Releases [.ops p] (waitFound p P child pid status wakes) := by
  refine Releases.bind (balanced_isProcExited pid) fun b => Releases.ite (Releases.done _) ?_
  cases child with
  | none => exact Releases.throw _ _
  | some c => exact releases_waitChild p P c pid status wakes

theorem balanced_sysWaitpid (pid : Int) (status : StatusArg) (options : Int)
    (wakes : List ExitCodes) : Balanced (sysWaitpid pid status options wakes) := by
  refine Releases.ite (Balanced.pure _) (Releases.ite (Balanced.pure _) ?_)
  refine Releases.bind balanced_curproc fun p => Releases.acquire ?_
  refine Releases.bind (balanced_readProc p) fun P => ?_
  apply Releases.bind (balanced_getReferenceByPid pid)
  intro x
  cases x with
  | some c => exact releases_waitFound p P (some c) pid status wakes
  | none =>
      apply Releases.bind (balanced_isProcExited pid)
      intro b
      exact Releases.ite (releases_waitFound p P none pid status wakes) (Releases.done _)

end Os161.Syscall.LockBalance

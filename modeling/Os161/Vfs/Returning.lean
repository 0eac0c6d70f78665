import Os161.Lib.Returns
import Os161.Vfs.Refine

set_option autoImplicit false

/-!
# Paths of the file layer that return

When the locks are free and no reference dangles, the functions behind `dup2` return. Where the
number that is closed belongs to one slot, with a file that `close_file_on_gtable` finds, exactly
that file loses one reference.
-/

namespace Os161.Vfs

open Os161.Lib.Program
open Os161.Lib.Slots

/-! ## The operations of the kernel -/

section Operations

variable {s : Kernel} {l : LockName} {r : FileRef} {f : File} {c : CellRef} {p : ProcRef}
  {P : Os161.Proc} {α : Type}

/-- A part whose runs are known. -/
theorem returns_of_runs {m : K α} {a : α} {t : Kernel} {Q : α → Kernel → Prop}
    (h : Runs m s a t) : Returns m s Q ↔ Q a t :=
  ⟨fun hm => hm.of_runs h, fun hQ => ⟨a, t, h, hQ⟩⟩

theorem returns_lockAcquire (h : s.held l = none) {Q : Unit → Kernel → Prop} :
    Returns (lockAcquire l) s Q ↔
      Q () { s with held := Function.update s.held l (some s.curproc) } :=
  returns_of_runs ((runs_lockAcquire _ _ _ _).2 ⟨h, rfl⟩)

theorem returns_lockRelease (h : s.held l = some s.curproc) {Q : Unit → Kernel → Prop} :
    Returns (lockRelease l) s Q ↔ Q () { s with held := Function.update s.held l none } :=
  returns_of_runs ((runs_lockRelease _ _ _ _).2 ⟨h, rfl⟩)

theorem returns_lockDestroy (h : s.held l = none) {Q : Unit → Kernel → Prop} :
    Returns (lockDestroy l) s Q ↔ Q () s :=
  returns_of_runs ((runs_lockDestroy _ _ _ _).2 ⟨h, rfl⟩)

theorem returns_freeFile {Q : Unit → Kernel → Prop} :
    Returns (freeFile r) s Q ↔ Q () { s with heap := Function.update s.heap r none } :=
  returns_of_runs ((runs_freeFile _ _ _ _).2 rfl)

theorem returns_readFile (h : s.heap r = some f) {Q : File → Kernel → Prop} :
    Returns (readFile r) s Q ↔ Q f s :=
  returns_of_runs ((runs_readFile _ _ _ _).2 ⟨h, rfl⟩)

theorem returns_writeFile {g : File} (h : s.heap r = some g) {Q : Unit → Kernel → Prop} :
    Returns (writeFile r f) s Q ↔
      Q () { s with heap := Function.update s.heap r (some f) } :=
  returns_of_runs ((runs_writeFile _ _ _ _ _).2 ⟨⟨g, h⟩, rfl⟩)

theorem returns_lockFile (h : s.heap r = some f) (hl : s.held (.file r) = none)
    {Q : Unit → Kernel → Prop} : Returns (lockFile r) s Q ↔
      Q () { s with held := Function.update s.held (.file r) (some s.curproc) } :=
  returns_of_runs ((runs_lockFile _ _ _ _).2 ⟨⟨f, h⟩, hl, rfl⟩)

theorem returns_createFile {path : String} {Q : Option FileRef → Kernel → Prop} :
    Returns (createFile true path) s Q ↔ Q (some s.nextFile) { s with
      cells := Function.update s.cells s.nextCell (some 0)
      nextCell := s.nextCell + 1
      heap := Function.update s.heap s.nextFile (some (blankFile path s.nextCell))
      nextFile := s.nextFile + 1 } := by
  refine returns_of_runs ?_
  simp only [createFile, if_true, runs_bind, runs_allocCell, runs_allocFile, runs_pure]
  exact ⟨_, _, ⟨rfl, rfl⟩, _, _, ⟨rfl, rfl⟩, rfl, rfl⟩

theorem returns_readTable (h : s.procs p = some P) {Q : PFileTable → Kernel → Prop} :
    Returns (readTable p) s Q ↔ Q P.pFiletable s :=
  returns_of_runs ((runs_readTable _ _ _ _).2 ⟨⟨P, h, rfl⟩, rfl⟩)

theorem returns_writeTable {t : PFileTable} (h : s.procs p = some P)
    {Q : Unit → Kernel → Prop} : Returns (writeTable p t) s Q ↔
      Q () { s with procs := Function.update s.procs p (some { P with pFiletable := t }) } :=
  returns_of_runs ((runs_writeTable _ _ _ _ _).2 ⟨P, h, rfl⟩)

theorem returns_setSlot {i : Fin openMax} {x : Option FileRef} (h : s.procs p = some P)
    {Q : Unit → Kernel → Prop} : Returns (setSlot p i x) s Q ↔
      Q () { s with
        procs := Function.update s.procs p
          (some { P with pFiletable :=
            { P.pFiletable with files := Function.update P.pFiletable.files i x } }) } := by
  rw [setSlot, returns_bind, returns_readTable h, returns_writeTable h]

end Operations

/-! ## Closing -/

/-- The file after it has lost a reference. -/
def lessOne (f : File) : Option File :=
  if f.refcount = 1 then none else some { f with refcount := f.refcount - 1 }

/-- The file `f` at `r` has lost one reference, and nothing else has happened to the files. -/
structure LostOne (s : Kernel) (r : FileRef) (f : File) (t : Kernel) : Prop where
  heap : t.heap = Function.update s.heap r (lessOne f)
  cells : ∀ c, (f.refcount = 1 → f.seekPos ≠ some c) → t.cells c = s.cells c
  held : t.held = s.held
  curproc : t.curproc = s.curproc
  nextFile : t.nextFile = s.nextFile

section Closing

variable {s : Kernel} {p : ProcRef} {P : Os161.Proc} {r : FileRef} {f : File}
  {i j : Fin openMax} {fd : Int}

theorem returns_freeCell (x : Option CellRef) {Q : Unit → Kernel → Prop} :
    Returns (freeCell x) s Q ↔
      Q () { s with cells := fun c => if x = some c then none else s.cells c } := by
  cases x with
  | none => simp [freeCell]
  | some c =>
      rw [freeCell, returns_modify]
      have e : (fun d => if some c = some d then none else s.cells d) =
          Function.update s.cells c none := by
        funext d
        by_cases hd : d = c
        · simp [hd]
        · simp [hd, Ne.symm hd]
      rw [e]

/-- A file with a vnode is destroyed; of the seek positions only its own is given back. -/
theorem runs_destroyFile_of {v : VnodeRef} (hf : s.heap r = some f) (hv : f.fileVnode = some v)
    (hlock : s.held (.file r) = none) :
    Runs (destroyFile r) s () { s with
      vnFile := Function.update s.vnFile v (s.vnFile v - 1)
      cells := fun c => if f.seekPos = some c then none else s.cells c
      heap := Function.update s.heap r none } := by
  have h : Returns (destroyFile r) s fun _ t => t = { s with
      vnFile := Function.update s.vnFile v (s.vnFile v - 1)
      cells := fun c => if f.seekPos = some c then none else s.cells c
      heap := Function.update s.heap r none } := by
    rw [destroyFile, returns_bind, returns_readFile hf, hv, returns_bind, vopDecref,
      returns_modify, returns_bind, returns_freeCell, returns_bind]
    refine (returns_lockDestroy ?_).2 (returns_freeFile.2 rfl)
    exact hlock
  obtain ⟨u, t, hrun, rfl⟩ := h
  exact hrun

theorem returns_closeGlobalSlot (hf : s.heap r = some f)
    (hv : f.refcount = 1 → f.fileVnode ≠ none) (hlock : s.held (.file r) = none) :
    Returns (closeGlobalSlot i r) s fun _ t => LostOne s r f t ∧ t.procs = s.procs := by
  rw [closeGlobalSlot, returns_bind, returns_readFile hf]
  by_cases hone : f.refcount = 1
  · obtain ⟨v, hv⟩ := Option.ne_none_iff_exists'.1 (hv hone)
    rw [if_pos hone, returns_bind, returns_modify, returns_bind]
    -- the slot of the global table is emptied first; the file is still there
    have hdestroy := runs_destroyFile_of (s := { s with gft := { s.gft with
      openFiles := Function.update s.gft.openFiles i none } }) hf hv hlock
    rw [returns_of_runs hdestroy, returns_modify]
    refine ⟨⟨?_, fun c hc => if_neg (hc hone), rfl, rfl, rfl⟩, rfl⟩
    rw [lessOne, if_pos hone]
  · rw [if_neg hone, returns_writeFile hf]
    refine ⟨⟨?_, fun c _ => rfl, rfl, rfl, rfl⟩, rfl⟩
    rw [lessOne, if_neg hone]

/-- The locks that closing a descriptor and duplicating one take. -/
structure LocksFree (s : Kernel) (p : ProcRef) : Prop where
  globalFile : s.held .globalFile = none
  procFt : s.held (.procFt p) = none
  file : ∀ r, s.held (.file r) = none

/-- What `close_file_on_gtable` needs to find the file `f` at `r` by its global number. -/
structure Found (s : Kernel) (r : FileRef) (f : File) : Prop where
  live : ∀ k q, s.gft.openFiles k = some q → s.heap q ≠ none
  slot : ∃ j, globalSlot s f.globalFd = some j ∧ s.gft.openFiles j = some r
  file : s.heap r = some f
  vnode : f.refcount = 1 → f.fileVnode ≠ none

theorem returns_closeFileOnGtable (hlock : LocksFree s p) (hfound : Found s r f) :
    Returns (closeFileOnGtable f.globalFd) s fun _ t => LostOne s r f t ∧ t.procs = s.procs := by
  obtain ⟨j, hslot, hr⟩ := hfound.slot
  rw [closeFileOnGtable, returns_bind, returns_lockAcquire hlock.globalFile, returns_bind,
    returns_get, returns_bind]
  have htest : ∀ k ∈ List.finRange openMax,
      Runs (testSlot (fun g => g.globalFd == f.globalFd) (s.gft.openFiles k))
        { s with held := Function.update s.held .globalFile (some s.curproc) }
        ((s.gft.openFiles k).any fun q => (s.heap q).any fun g => g.globalFd == f.globalFd)
        { s with held := Function.update s.held .globalFile (some s.curproc) } := by
    intro k _
    cases hk : s.gft.openFiles k with
    | none => simp [testSlot]
    | some q =>
        obtain ⟨g, hg⟩ := Option.ne_none_iff_exists'.1 (hfound.live k q hk)
        simp [testSlot, hg]
  have hlast : ((List.finRange openMax).reverse.find? fun k => (s.gft.openFiles k).any fun q =>
      (s.heap q).any fun g => g.globalFd == f.globalFd).or none = some j := by
    rw [Option.or_none]
    exact hslot
  refine (returns_of_runs (scanLast_returns _ none htest)).2 ?_
  simp only [hlast, hr]
  rw [returns_bind]
  refine returns_mono (returns_closeGlobalSlot (f := f) hfound.file hfound.vnode ?_)
    fun _ t hclosed => ?_
  · simp [hlock.file r]
  · obtain ⟨ht, hp⟩ := hclosed
    have hheld : t.held .globalFile = some t.curproc := by
      rw [ht.held, ht.curproc]
      simp
    refine (returns_lockRelease hheld).2 ⟨⟨ht.heap, ht.cells, ?_, ht.curproc, ht.nextFile⟩, hp⟩
    show Function.update t.held _ _ = _
    rw [ht.held]
    exact update_held_cancel hlock.globalFile

/-- A slot that is empty or has another number is passed over. -/
theorem runs_closeFileRound_skip (hP : s.procs p = some P)
    (hskip : ∀ q, P.pFiletable.files j = some q → ∃ g, s.heap q = some g ∧ g.localFd ≠ fd) :
    Runs (closeFileRound p fd j) s () s := by
  refine (runs_bind _ _ _ _ _).2 ⟨_, s, (runs_readTable _ _ _ _).2 ⟨⟨P, hP, rfl⟩, rfl⟩, ?_⟩
  cases hj : P.pFiletable.files j with
  | none => exact (runs_pure _ _ _ _).2 ⟨rfl, rfl⟩
  | some q =>
      obtain ⟨g, hg, hne⟩ := hskip q hj
      refine (runs_bind _ _ _ _ _).2 ⟨g, s, (runs_readFile _ _ _ _).2 ⟨hg, rfl⟩, ?_⟩
      simp only [if_neg hne, runs_pure, and_self]

/-- The process `P` with the slot `i` empty. -/
def emptied (P : Os161.Proc) (i : Fin openMax) : Os161.Proc :=
  { P with pFiletable := { P.pFiletable with files := Function.update P.pFiletable.files i none } }

/-- The slot that has the number is closed. -/
theorem returns_closeFileRound (hlock : LocksFree s p) (hP : s.procs p = some P)
    (hi : P.pFiletable.files i = some r) (hfound : Found s r f) (hd : f.isDupe = false) :
    Returns (closeFileRound p f.localFd i) s fun _ t =>
      LostOne s r f t ∧ t.procs = Function.update s.procs p (some (emptied P i)) := by
  rw [closeFileRound, returns_bind, returns_readTable hP]
  simp only [hi]
  have hdup : ¬ f.isDupe = true := by simp [hd]
  rw [returns_bind, returns_readFile hfound.file, if_pos rfl, closeSlot, if_neg hdup, returns_bind]
  refine returns_mono (returns_closeFileOnGtable hlock hfound) fun _ t hclosed => ?_
  obtain ⟨ht, hp⟩ := hclosed
  have hP' : t.procs p = some P := by rw [hp, hP]
  rw [returns_setSlot hP', hp]
  exact ⟨⟨ht.heap, ht.cells, ht.held, ht.curproc, ht.nextFile⟩, rfl⟩

/-- The slot `i` of `P` is the only one with its number, and its file is no duplicate and is
found by its global number. -/
structure Closable (s : Kernel) (P : Os161.Proc) (i : Fin openMax) (r : FileRef) (f : File) :
    Prop where
  slot : P.pFiletable.files i = some r
  live : ∀ j q, P.pFiletable.files j = some q → s.heap q ≠ none
  sole : ∀ j q g, P.pFiletable.files j = some q → s.heap q = some g → g.localFd = f.localFd →
    j = i
  isDupe : f.isDupe = false
  found : Found s r f

/-- `close_file_on_ptable`, where exactly one slot has the number. -/
theorem returns_closeFileOnPtable (hlock : LocksFree s p) (hP : s.procs p = some P)
    (hc : Closable s P i r f) :
    Returns (closeFileOnPtable p f.localFd) s fun _ t => LostOne s r f t ∧
      t.procs = Function.update s.procs p (some { emptied P i with
        pFiletable := { (emptied P i).pFiletable with size := P.pFiletable.size + -1 } }) := by
  rw [closeFileOnPtable, returns_bind]
  -- the state changes in the round of the slot only
  let I : List (Fin openMax) → Kernel → Prop := fun l t => l.Nodup ∧
    (i ∈ l → t = s) ∧
    (i ∉ l → LostOne s r f t ∧ t.procs = Function.update s.procs p (some (emptied P i)))
  have hother : ∀ j, j ≠ i → ∀ q, P.pFiletable.files j = some q →
      ∃ g, s.heap q = some g ∧ g.localFd ≠ f.localFd := by
    intro j hj q hq
    obtain ⟨g, hg⟩ := Option.ne_none_iff_exists'.1 (hc.live j q hq)
    exact ⟨g, hg, fun he => hj (hc.sole j q g hq hg he)⟩
  have hround : ∀ j js t, I (j :: js) t →
      Returns (closeFileRound p f.localFd j) t fun _ u => I js u := by
    rintro j js t ⟨hnd, hin, hout⟩
    obtain ⟨hj, hnd⟩ := List.nodup_cons.1 hnd
    by_cases hji : j = i
    · subst hji
      rw [hin List.mem_cons_self]
      exact returns_mono (returns_closeFileRound hlock hP hc.slot hc.found hc.isDupe)
        fun _ u hu => ⟨hnd, fun hm => absurd hm hj, fun _ => hu⟩
    · by_cases hm : i ∈ js
      · have hts := hin (List.mem_cons_of_mem j hm)
        subst hts
        exact (returns_of_runs (runs_closeFileRound_skip hP (hother j hji))).2
          ⟨hnd, fun _ => rfl, fun hn => absurd hm hn⟩
      · have hn : i ∉ j :: js := by simp [Ne.symm hji, hm]
        obtain ⟨ht, hp⟩ := hout hn
        have hP' : t.procs p = some (emptied P i) := by rw [hp, Function.update_self]
        refine (returns_of_runs (runs_closeFileRound_skip hP' fun q hq => ?_)).2
          ⟨hnd, fun hm' => absurd hm' hm, fun _ => ⟨ht, hp⟩⟩
        have hq' : P.pFiletable.files j = some q := by
          simpa [emptied, Function.update_of_ne hji] using hq
        obtain ⟨g, hg, hne⟩ := hother j hji q hq'
        refine ⟨g, ?_, hne⟩
        have hqr : q ≠ r := by
          rintro rfl
          rw [hc.found.file] at hg
          exact hne (congrArg File.localFd (Option.some.inj hg)).symm
        rw [ht.heap, Function.update_of_ne hqr, hg]
  have hstart : I (List.finRange openMax) s :=
    ⟨List.nodup_finRange _, fun _ => rfl, fun hn => absurd (List.mem_finRange i) hn⟩
  refine returns_mono (returns_forEach I hround _ hstart) fun _ t hend => ?_
  obtain ⟨ht, hp⟩ := hend.2.2 List.not_mem_nil
  have hP' : t.procs p = some (emptied P i) := by rw [hp, Function.update_self]
  rw [bumpSize, returns_bind, returns_readTable hP', returns_writeTable hP', hp,
    Function.update_idem]
  exact ⟨⟨ht.heap, ht.cells, ht.held, ht.curproc, ht.nextFile⟩, rfl⟩

end Closing

/-! ## Duplicating -/

section Duplicating

variable {s : Kernel} {p : ProcRef} {P : Os161.Proc} {r : FileRef} {f : File}
  {i : Fin openMax} {oldfd newfd : Int}

theorem returns_increfCopied (x : Option VnodeRef) {Q : Unit → Kernel → Prop}
    (h : ∀ vn, Q () { s with vnFile := vn }) : Returns (increfCopied x) s Q := by
  cases x with
  | none => exact (returns_pure _).2 (h s.vnFile)
  | some v => exact (returns_modify _).2 (h _)

theorem returns_copySeek (x y : Option CellRef) {Q : Unit → Kernel → Prop}
    (hx : ∀ c, x = some c → s.cells c ≠ none) (hy : ∀ d, y = some d → s.cells d ≠ none)
    (h : ∀ cs, Q () { s with cells := cs }) : Returns (copySeek x y) s Q := by
  cases x with
  | none => exact (returns_pure _).2 (h s.cells)
  | some c =>
      cases y with
      | none => exact (returns_pure _).2 (h s.cells)
      | some d =>
          obtain ⟨v, hv⟩ := Option.ne_none_iff_exists'.1 (hx c rfl)
          obtain ⟨w, hw⟩ := Option.ne_none_iff_exists'.1 (hy d rfl)
          refine (returns_bind _).2 ((returns_of_runs ((runs_readCell _ _ _ _).2 ⟨hv, rfl⟩)).2 ?_)
          exact (returns_of_runs ((runs_writeCell _ _ _ _ _).2 ⟨⟨w, hw⟩, rfl⟩)).2 (h _)

/-- `copy_file`, when its allocations succeed. -/
theorem returns_copyFile (hf : s.heap r = some f) (hr : r ≠ s.nextFile)
    (hlock : s.held (.file r) = none) (hseek : ∀ c, f.seekPos = some c → s.cells c ≠ none) :
    Returns (copyFile true r) s fun g t => g = s.nextFile ∧ ∃ cs vn, t = { s with
      heap := Function.update (Function.update s.heap r (some { f with refcount := f.refcount + 1 }))
        s.nextFile (some (copyOf f (blankFile f.filePath s.nextCell)))
      nextFile := s.nextFile + 1, nextCell := s.nextCell + 1, cells := cs, vnFile := vn } := by
  rw [copyFile, returns_bind, returns_lockFile hf hlock, returns_bind, returns_readFile (f := f),
    returns_bind, returns_createFile]
  · simp only [returns_bind]
    rw [returns_readFile (f := blankFile f.filePath s.nextCell)]
    · rw [returns_writeFile (g := f)]
      · apply returns_increfCopied
        intro vn
        apply returns_copySeek
        · intro c hc
          by_cases hnew : c = s.nextCell
          · simp [hnew]
          · simpa [hnew] using hseek c hc
        · intro d hd
          cases hd
          simp
        · intro cs
          rw [returns_writeFile (g := blankFile f.filePath s.nextCell)]
          · rw [returns_lockRelease, returns_pure]
            · refine ⟨rfl, cs, vn, ?_⟩
              have hheld := @update_held_cancel s.held (.file r) (some s.curproc) hlock
              have hheap : ∀ x y : Option File, Function.update (Function.update (Function.update
                  s.heap s.nextFile x) r (some { f with refcount := f.refcount + 1 }))
                    s.nextFile y = Function.update (Function.update s.heap r
                      (some { f with refcount := f.refcount + 1 })) s.nextFile y := by
                intro x y
                rw [Function.update_comm hr.symm, Function.update_idem]
              simp only [hheld, hheap]
              rfl
            · simp
          · simp [Ne.symm hr]
      · simp [hr, hf]
    · simp
  · exact hf

/-- The state after the file `f` at `r`, held by `p`, has got a duplicate with the number `newfd`
in the slot `i`. -/
structure Duplicated (s : Kernel) (p : ProcRef) (P : Os161.Proc) (i : Fin openMax) (r : FileRef)
    (f : File) (newfd : Int) (t : Kernel) : Prop where
  heap : t.heap = Function.update
    (Function.update s.heap r (some { f with refcount := f.refcount + 1 })) s.nextFile
      (some (Ledger.dupOf f newfd))
  procs : t.procs = Function.update s.procs p (some { P with pFiletable :=
    { P.pFiletable with files := Function.update P.pFiletable.files i (some s.nextFile)
                        size := P.pFiletable.size + 1 } })

/-- `dup_file`, when its allocations succeed. -/
theorem returns_dupFile (hlock : LocksFree s p) (hP : s.procs p = some P)
    (hlive : ∀ j q, P.pFiletable.files j = some q → s.heap q ≠ none)
    (hlook : lookupFd s p oldfd = some r) (hf : s.heap r = some f) (hr : r ≠ s.nextFile)
    (hseek : ∀ c, f.seekPos = some c → s.cells c ≠ none) :
    Returns (dupFile true p oldfd newfd) s fun g t => g = s.nextFile ∧ ∃ cs vn, t = { s with
      heap := Function.update (Function.update s.heap r (some { f with refcount := f.refcount + 1 }))
        s.nextFile (some (Ledger.dupOf f newfd))
      nextFile := s.nextFile + 1, nextCell := s.nextCell + 1, cells := cs, vnFile := vn } := by
  have hfound := pFiletableLookup_returns hP hlock.procFt hlive oldfd
  rw [hlook] at hfound
  rw [dupFile, returns_bind, returns_of_runs hfound]
  simp only [returns_bind]
  refine returns_mono (returns_copyFile hf hr (hlock.file r) hseek) ?_
  rintro g t ⟨rfl, cs, vn, rfl⟩
  rw [returns_readFile (f := copyOf f (blankFile f.filePath s.nextCell)) (by simp),
    returns_freeCell]
  rw [returns_readFile (f := { f with refcount := f.refcount + 1 }) (by simp [hr])]
  rw [returns_writeFile (g := copyOf f (blankFile f.filePath s.nextCell)) (by simp), returns_pure]
  simp only [Function.update_idem, true_and]
  exact ⟨_, vn, rfl⟩

/-- `put_file_on_ptable` on a table whose first free slot is `i`. -/
theorem returns_putFileOnPtable {g : File} (hlock : s.held (.procFt p) = none)
    (hP : s.procs p = some P) (hi : firstFree P.pFiletable.files = some i)
    (hg : s.heap r = some g) {Q : Int → Kernel → Prop} :
    Returns (putFileOnPtable p r) s Q ↔ Q g.localFd { s with
      procs := Function.update s.procs p (some { P with pFiletable :=
        { P.pFiletable with files := Function.update P.pFiletable.files i (some r)
                            size := P.pFiletable.size + 1 } }) } := by
  rw [putFileOnPtable, returns_bind, returns_lockAcquire hlock, returns_bind,
    returns_readTable (P := P) (by exact hP)]
  simp only [hi]
  rw [returns_bind, returns_writeTable (P := P) (by exact hP), returns_bind,
    returns_lockRelease (by simp), returns_bind, returns_readFile (f := g) (by exact hg),
    returns_pure]
  simp only [update_held_cancel hlock]

end Duplicating

end Os161.Vfs

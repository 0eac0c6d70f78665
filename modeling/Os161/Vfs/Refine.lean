import Os161.Vfs.Events
import Os161.Vfs.File

set_option autoImplicit false

/-!
# The file layer refines the ledger

`Ledger.of s` reads the ledger off a kernel state. For every function of `vfs/file.c` that changes
a table, this module says which moves or events of the ledger one run of it makes. The loops are
treated round by round: a round is one event or leaves the ledger as it is, and the invariant of
the ledger is carried from round to round.
-/

namespace Os161.Vfs

open Os161.Lib.Program
open Os161.Lib.Slots

/-! ## Reading the ledger off a state -/

/-- The file table of a process; empty when there is no such process. -/
def rowOf (procs : ProcRef → Option Os161.Proc) (p : ProcRef) : Table openMax FileRef :=
  (procs p).elim (fun _ => none) fun P => P.pFiletable.files

/-- Whether a process has an address space. -/
def spaceOf (procs : ProcRef → Option Os161.Proc) (p : ProcRef) : Option Bool :=
  (procs p).map Proc.pAddrspace

/-- The ledger of a kernel state. -/
def Ledger.of (s : Kernel) : Ledger :=
  { heap := s.heap, nextFile := s.nextFile, nextFd := s.gft.nextFd, openFiles := s.gft.openFiles
    size := s.gft.size, row := rowOf s.procs, space := spaceOf s.procs, nextProc := s.nextProc
    vnFile := s.vnFile }

theorem rowOf_some {procs : ProcRef → Option Os161.Proc} {p : ProcRef} {P : Os161.Proc}
    (h : procs p = some P) : rowOf procs p = P.pFiletable.files := by
  simp [rowOf, h]

theorem rowOf_update (procs : ProcRef → Option Os161.Proc) (p : ProcRef)
    (x : Option Os161.Proc) :
    rowOf (Function.update procs p x) =
      Function.update (rowOf procs) p (x.elim (fun _ => none) fun P => P.pFiletable.files) := by
  funext q
  by_cases hq : q = p
  · subst hq
    simp [rowOf]
  · simp [rowOf, hq]

theorem spaceOf_update (procs : ProcRef → Option Os161.Proc) (p : ProcRef)
    (x : Option Os161.Proc) :
    spaceOf (Function.update procs p x) =
      Function.update (spaceOf procs) p (x.map Proc.pAddrspace) := by
  funext q
  by_cases hq : q = p
  · subst hq
    simp [spaceOf]
  · simp [spaceOf, hq]

/-- Rewriting a process without touching its slots or its address space. -/
theorem of_writeProc {s : Kernel} {p : ProcRef} {P Q : Os161.Proc} (hP : s.procs p = some P)
    (hfiles : Q.pFiletable.files = P.pFiletable.files) (hspace : Q.pAddrspace = P.pAddrspace) :
    Ledger.of { s with procs := Function.update s.procs p (some Q) } = Ledger.of s := by
  have hrow : rowOf (Function.update s.procs p (some Q)) = rowOf s.procs := by
    rw [rowOf_update, Option.elim_some, hfiles, ← rowOf_some hP, Function.update_eq_self]
  have hsp : spaceOf (Function.update s.procs p (some Q)) = spaceOf s.procs := by
    have e : some Q.pAddrspace = spaceOf s.procs p := by simp [spaceOf, hP, hspace]
    rw [spaceOf_update, Option.map_some, e, Function.update_eq_self]
  simp only [Ledger.of, hrow, hsp]

/-- Giving a process its address space. -/
theorem of_loadProc {s : Kernel} {p : ProcRef} {P Q : Os161.Proc} (hP : s.procs p = some P)
    (hfiles : Q.pFiletable.files = P.pFiletable.files) (hspace : Q.pAddrspace = true) :
    Ledger.of { s with procs := Function.update s.procs p (some Q) } = (Ledger.of s).load p := by
  have hrow : rowOf (Function.update s.procs p (some Q)) = rowOf s.procs := by
    rw [rowOf_update, Option.elim_some, hfiles, ← rowOf_some hP, Function.update_eq_self]
  simp only [Ledger.of, Ledger.load, hrow, spaceOf_update, Option.map_some, hspace]

theorem of_bumpSize {p : ProcRef} {d : Int} {s s' : Kernel} {u : Unit}
    (h : Runs (bumpSize p d) s u s') : Ledger.of s' = Ledger.of s := by
  obtain ⟨P, hP, rfl⟩ := runs_bumpSize h
  exact of_writeProc hP rfl rfl

theorem of_setSlot {p : ProcRef} {i : Fin openMax} {x : Option FileRef} {s s' : Kernel} {u : Unit}
    (h : Runs (setSlot p i x) s u s') :
    Ledger.of s' = (Ledger.of s).setSlot p i x ∧ s'.curproc = s.curproc := by
  obtain ⟨P, hP, rfl⟩ := runs_setSlot h
  refine ⟨?_, rfl⟩
  have hsp : spaceOf (Function.update s.procs p (some { P with pFiletable :=
      { P.pFiletable with files := Function.update P.pFiletable.files i x } })) =
      spaceOf s.procs := by
    have e : some P.pAddrspace = spaceOf s.procs p := by simp [spaceOf, hP]
    rw [spaceOf_update, Option.map_some, e, Function.update_eq_self]
  simp only [Ledger.of, Ledger.setSlot, Ledger.setRow, rowOf_update, hsp, Option.elim_some,
    rowOf_some hP]

/-! ## Lookup -/

/-- The file that `p_filetable_lookup` finds for `fd` in the table of `p`. -/
def Ledger.lookup (L : Ledger) (p : ProcRef) (fd : Int) : Option FileRef :=
  lookupIn L.heap (L.row p) fd

theorem lookupFd_eq (s : Kernel) (p : ProcRef) (fd : Int) :
    lookupFd s p fd = (Ledger.of s).lookup p fd := by
  cases hP : s.procs p with
  | none =>
      have hrow : (Ledger.of s).row p = fun _ => none := by simp [Ledger.of, rowOf, hP]
      have hnone : ∀ x : Option (Fin openMax), (x.bind fun _ => (none : Option FileRef)) = none := by
        intro x
        cases x <;> rfl
      rw [Ledger.lookup, hrow, lookupIn, hnone]
      simp [lookupFd, hP]
  | some P =>
      have hrow : (Ledger.of s).row p = P.pFiletable.files := rowOf_some hP
      rw [Ledger.lookup, hrow]
      simp [lookupFd, hP, Ledger.of]

theorem Ledger.lookup_eq_some {L : Ledger} {p : ProcRef} {fd : Int} {r : FileRef}
    (h : L.lookup p fd = some r) :
    ∃ i f, L.row p i = some r ∧ L.heap r = some f ∧ f.localFd = fd := by
  obtain ⟨i, hfirst, hi⟩ := Option.bind_eq_some_iff.1 h
  obtain ⟨r', hr', hp⟩ := firstWith_eq_some hfirst
  rw [hi] at hr'
  cases hr'
  obtain ⟨f, hf, hfd⟩ := (Option.any_eq_true _ _).1 hp
  exact ⟨i, f, hi, hf, by simpa using hfd⟩

theorem Ledger.lookup_eq_none {L : Ledger} {p : ProcRef} {fd : Int} (h : L.lookup p fd = none)
    {i : Fin openMax} {r : FileRef} {f : File} (hr : L.row p i = some r)
    (hf : L.heap r = some f) : f.localFd ≠ fd := by
  have hfirst : firstWith (fun r => (L.heap r).any fun f => f.localFd == fd) (L.row p) = none := by
    cases hc : firstWith (fun r => (L.heap r).any fun f => f.localFd == fd) (L.row p) with
    | none => rfl
    | some k =>
        obtain ⟨r', hr', -⟩ := firstWith_eq_some hc
        have : L.lookup p fd = some r' := by
          rw [Ledger.lookup, lookupIn, hc, Option.bind_some, hr']
        rw [h] at this
        cases this
  have := firstWith_eq_none hfirst hr
  simpa [hf] using this

/-- A lookup depends only on which slots carry the number, and on the files in these slots. -/
theorem Ledger.lookup_congr {L L' : Ledger} {p : ProcRef} {fd : Int}
    (h : ∀ i r f, L.row p i = some r → L.heap r = some f → f.localFd = fd →
      L'.row p i = some r ∧ ∃ f', L'.heap r = some f' ∧ f'.localFd = fd)
    (h' : ∀ i r f', L'.row p i = some r → L'.heap r = some f' → f'.localFd = fd →
      L.row p i = some r ∧ ∃ f, L.heap r = some f ∧ f.localFd = fd) :
    L'.lookup p fd = L.lookup p fd := by
  have hany : ∀ i, ((L'.row p i).any fun r => (L'.heap r).any fun f => f.localFd == fd) =
      (L.row p i).any fun r => (L.heap r).any fun f => f.localFd == fd := by
    intro i
    rw [Bool.eq_iff_iff]
    simp only [Option.any_eq_true, beq_iff_eq]
    constructor
    · rintro ⟨r, hr, f', hf', hfd⟩
      obtain ⟨hr₁, hf₁⟩ := h' i r f' hr hf' hfd
      exact ⟨r, hr₁, hf₁⟩
    · rintro ⟨r, hr, f, hf, hfd⟩
      obtain ⟨hr₁, hf₁⟩ := h i r f hr hf hfd
      exact ⟨r, hr₁, hf₁⟩
  have hfirst : firstWith (fun r => (L'.heap r).any fun f => f.localFd == fd) (L'.row p) =
      firstWith (fun r => (L.heap r).any fun f => f.localFd == fd) (L.row p) := by
    unfold firstWith
    simp only [hany]
  unfold Ledger.lookup lookupIn
  rw [hfirst]
  cases hk : firstWith (fun r => (L.heap r).any fun f => f.localFd == fd) (L.row p) with
  | none => rfl
  | some k =>
      obtain ⟨r, hr, hp⟩ := firstWith_eq_some hk
      obtain ⟨f, hf, hfd⟩ := (Option.any_eq_true _ _).1 hp
      rw [Option.bind_some, Option.bind_some, hr]
      exact (h k r f hr hf (by simpa using hfd)).1

/-- Closing another number does not change what a number denotes. -/
theorem Ledger.Closes.lookup_keep {L L' : Ledger} {p : ProcRef} {fd fd' : Int}
    (h : Ledger.Closes p fd' L L') (hne : fd ≠ fd') : L'.lookup p fd = L.lookup p fd := by
  refine h.keeps (I := fun M => M.lookup p fd = L.lookup p fd) (fun M M' hwf hsole hM hc => ?_) rfl
  rw [← hM]
  refine Ledger.lookup_congr (fun i r f hr hf hfd => ?_) fun i r f' hr hf' hfd => ?_
  · have hr' := hc.row_keep hr hf fun _ => by
      rw [hfd]
      exact hne
    obtain ⟨f', hf', -⟩ := (hc.wf hwf hsole).slots p i r hr'
    obtain ⟨g, hg, hsame⟩ := hc.shrinks.heap r f' hf'
    rw [hf] at hg
    cases hg
    exact ⟨hr', f', hf', hsame.localFd.trans hfd⟩
  · obtain ⟨f, hf, hsame⟩ := hc.shrinks.heap r f' hf'
    exact ⟨hc.shrinks.row p i r hr, f, hf, hsame.localFd.symm.trans hfd⟩

/-! ## Closing on the global table -/

theorem runs_destroyDup {r : FileRef} {s s' : Kernel} {u : Unit} (h : Runs (destroyDup r) s u s') :
    s' = { s with heap := Function.update s.heap r none } := by
  simp only [destroyDup, runs_bind, runs_readFile, runs_lockDestroy, runs_freeFile] at h
  obtain ⟨f, s₁, ⟨-, rfl⟩, v, s₂, ⟨-, rfl⟩, rfl⟩ := h
  rfl

theorem runs_destroyFile {r : FileRef} {s s' : Kernel} {u : Unit}
    (h : Runs (destroyFile r) s u s') :
    ∃ f v cs, s.heap r = some f ∧ f.fileVnode = some v ∧
      s' = { s with
        vnFile := Function.update s.vnFile v (s.vnFile v - 1)
        cells := cs
        heap := Function.update s.heap r none } := by
  simp only [destroyFile, runs_bind, runs_readFile, runs_vopDecref, runs_lockDestroy,
    runs_freeFile] at h
  obtain ⟨f, s₁, ⟨hf, rfl⟩, v, s₂, ⟨vn, hvn, rfl⟩, w, s₃, hcell, x, s₄, ⟨-, rfl⟩, rfl⟩ := h
  obtain ⟨cs, rfl⟩ := runs_freeCell hcell
  exact ⟨f, vn, cs, hf, hvn, rfl⟩

/-- The slot of the global table that `close_file_on_gtable` works on. -/
def globalSlot (s : Kernel) (fd : Int) : Option (Fin openMax) :=
  lastWith (fun r => (s.heap r).any fun f => f.globalFd == fd) s.gft.openFiles

theorem globalSlot_eq_some {s : Kernel} {fd : Int} {i : Fin openMax}
    (h : globalSlot s fd = some i) :
    ∃ r f, s.gft.openFiles i = some r ∧ s.heap r = some f ∧ f.globalFd = fd := by
  obtain ⟨r, hr, hp⟩ := lastWith_eq_some h
  obtain ⟨f, hf, hg⟩ := (Option.any_eq_true _ _).1 hp
  exact ⟨r, f, hr, hf, by simpa using hg⟩

theorem globalSlot_eq_none {s : Kernel} {fd : Int} (h : globalSlot s fd = none) {i : Fin openMax}
    {r : FileRef} {f : File} (hr : s.gft.openFiles i = some r) (hf : s.heap r = some f) :
    f.globalFd ≠ fd := by
  have := lastWith_eq_none h hr
  simpa [hf] using this

/-- What `close_file_on_gtable` did: nothing, or the file with the number lost a reference. -/
inductive GlobalClose (fd : Int) (s : Kernel) : Kernel → Prop where
  | absent : (∀ (i : Fin openMax) r f, s.gft.openFiles i = some r → s.heap r = some f →
      f.globalFd ≠ fd) → GlobalClose fd s s
  | last {i : Fin openMax} {r : FileRef} {f : File} {v : VnodeRef} {cs : CellRef → Option Int} :
      s.gft.openFiles i = some r → s.heap r = some f → f.globalFd = fd → f.refcount = 1 →
      f.fileVnode = some v →
      GlobalClose fd s { s with
        gft := { s.gft with
          openFiles := Function.update s.gft.openFiles i none
          size := s.gft.size - 1 }
        vnFile := Function.update s.vnFile v (s.vnFile v - 1)
        cells := cs
        heap := Function.update s.heap r none }
  | shared {i : Fin openMax} {r : FileRef} {f : File} :
      s.gft.openFiles i = some r → s.heap r = some f → f.globalFd = fd → f.refcount ≠ 1 →
      GlobalClose fd s
        { s with heap := Function.update s.heap r (some { f with refcount := f.refcount - 1 }) }

theorem runs_closeFileOnGtable {fd : Int} {s s' : Kernel} {u : Unit}
    (h : Runs (closeFileOnGtable fd) s u s') : GlobalClose fd s s' := by
  simp only [closeFileOnGtable, runs_bind, runs_lockAcquire, runs_get] at h
  obtain ⟨_, s₁, ⟨hfree, rfl⟩, t, s₂, ⟨rfl, rfl⟩, found, s₃, hscan, h⟩ := h
  obtain ⟨rfl, rfl⟩ := runs_scanLast (reads_testSlot _ _ _) _ hscan
  have hfound : ((List.finRange openMax).reverse.find? fun i => (s.gft.openFiles i).any fun r =>
      (s.heap r).any fun f => f.globalFd == fd).or none = globalSlot s fd := by
    rw [Option.or_none]
    rfl
  simp only [hfound] at h
  cases hg : globalSlot s fd with
  | none =>
      simp only [hg, runs_lockRelease] at h
      obtain ⟨-, rfl⟩ := h
      simp only [update_held_cancel hfree]
      exact .absent fun i r f hr hf => globalSlot_eq_none hg hr hf
  | some i =>
      obtain ⟨r, f, hr, hf, hfd⟩ := globalSlot_eq_some hg
      simp only [hg, hr, closeGlobalSlot, runs_bind, runs_readFile, runs_ite, runs_modify,
        runs_writeFile, runs_lockRelease] at h
      obtain ⟨_, s₄, ⟨g, s₅, ⟨hf', rfl⟩, h⟩, hheld, rfl⟩ := h
      simp only [hf, Option.some.injEq] at hf'
      subst hf'
      rcases h with ⟨hone, _, s₆, rfl, _, s₇, hdes, rfl⟩ | ⟨hne, -, rfl⟩
      · obtain ⟨f', v, cs, hf', hv, rfl⟩ := runs_destroyFile hdes
        simp only [hf, Option.some.injEq] at hf'
        subst hf'
        simp only [update_held_cancel hfree]
        exact .last hr hf hfd hone hv
      · simp only [update_held_cancel hfree]
        exact .shared hr hf hfd hne

/-! ## Closing a descriptor -/

theorem addVnode_update (L : Ledger) (v : VnodeRef) (d : Int) :
    L.addVnode (some v) d =
      { L with vnFile := Function.update L.vnFile v (L.vnFile v + d) } := by
  have e : (fun w => if some v = some w then L.vnFile w + d else L.vnFile w) =
      Function.update L.vnFile v (L.vnFile v + d) := by
    funext w
    by_cases hw : w = v
    · subst hw
      simp
    · have hne : v ≠ w := fun e => hw e.symm
      simp [hw, hne]
  simp only [Ledger.addVnode, e]

/-- On a file of the global table, `close_file_on_gtable` reaches that file. -/
theorem GlobalClose.of_opened {s s' : Kernel} {j : Fin openMax} {r : FileRef} {f : File}
    (hwf : (Ledger.of s).WF) (hj : 3 ≤ j.val) (hr : s.gft.openFiles j = some r)
    (hf : s.heap r = some f) (h : GlobalClose f.globalFd s s') :
    (f.refcount = 1 ∧ Ledger.of s' =
        (((Ledger.of s).unregister j).setFile r none).addVnode f.fileVnode (-1)) ∨
      (f.refcount ≠ 1 ∧ Ledger.of s' = (Ledger.of s).setCount r f (f.refcount - 1)) := by
  obtain ⟨-, hop⟩ := hwf.opened (r := r) hf ⟨j, hj, hr⟩
  -- a file with the same number stands in the same slot
  have hsame : ∀ {i : Fin openMax} {r' : FileRef} {g : File}, s.gft.openFiles i = some r' →
      s.heap r' = some g → g.globalFd = f.globalFd → i = j ∧ r' = r ∧ g = f := by
    intro i r' g hi hg he
    have hi3 : 3 ≤ i.val := by
      by_contra hc
      have hstd := hwf.openStd i (not_le.1 hc)
      have e : r' = i.val := Option.some.inj (hi.symm.trans hstd)
      subst e
      have hneg := (hwf.std_status (not_le.1 hc) hg).globalFd
      have := hop.three
      omega
    have hij := hwf.openInj i j r' r g f hi3 hj hi hr hg hf he
    subst hij
    rw [hi] at hr
    cases hr
    rw [hg] at hf
    cases hf
    exact ⟨rfl, rfl, rfl⟩
  cases h with
  | absent hnone => exact absurd rfl (hnone j r f hr hf)
  | @last i r' g v cs hi hg he hone hv =>
      obtain ⟨rfl, rfl, rfl⟩ := hsame hi hg he
      refine .inl ⟨hone, ?_⟩
      rw [hv, addVnode_update]
      rfl
  | shared hi hg he hne =>
      obtain ⟨rfl, rfl, rfl⟩ := hsame hi hg he
      exact .inr ⟨hne, rfl⟩

/-- On a standard file, `close_file_on_gtable` lowers the count of a standard file. -/
theorem GlobalClose.of_std {s s' : Kernel} (hwf : (Ledger.of s).WF)
    (h : GlobalClose (-1) s s') :
    ∃ k g n, k < 3 ∧ s.heap k = some g ∧ Ledger.of s' = (Ledger.of s).setCount k g n := by
  have hstd : ∀ {i : Fin openMax} {r : FileRef} {g : File}, s.gft.openFiles i = some r →
      s.heap r = some g → g.globalFd = -1 → r < 3 := by
    intro i r g hi hg he
    by_cases hi3 : i.val < 3
    · have e : r = i.val := Option.some.inj (hi.symm.trans (hwf.openStd i hi3))
      rw [e]
      exact hi3
    · have := (hwf.opened (r := r) hg ⟨i, not_lt.1 hi3, hi⟩).2.three
      omega
  cases h with
  | absent hnone =>
      obtain ⟨f, hf, hstd⟩ := hwf.std 0 (by decide)
      have h0 : s.gft.openFiles ⟨0, by decide⟩ = some 0 := hwf.openStd ⟨0, by decide⟩ (by decide)
      exact absurd hstd.globalFd (hnone _ _ f h0 hf)
  | last hi hg he hone hv =>
      have hnone := (hwf.std_status (hstd hi hg he) hg).fileVnode
      rw [hv] at hnone
      cases hnone
  | shared hi hg he hne => exact ⟨_, _, _, hstd hi hg he, hg, rfl⟩

/-- One round of the loop of `close_file_on_ptable`. -/
theorem sim_closeFileRound {p : ProcRef} {fd : Int} {i : Fin openMax} {s s' : Kernel} {u : Unit}
    (hwf : (Ledger.of s).WF) (h : Runs (closeFileRound p fd i) s u s') :
    (Ledger.of s' = Ledger.of s ∧
        ∀ r f, (Ledger.of s).row p i = some r → s.heap r = some f → f.localFd ≠ fd) ∨
      (Ledger.Close p fd (Ledger.of s) (Ledger.of s') ∧ (Ledger.of s').row p i = none) := by
  simp only [closeFileRound, runs_bind, runs_readTable] at h
  obtain ⟨t, s₁, ⟨⟨P, hP, rfl⟩, rfl⟩, h⟩ := h
  have hrow : (Ledger.of s₁).row p i = P.pFiletable.files i := congrFun (rowOf_some hP) i
  cases hi : P.pFiletable.files i with
  | none =>
      simp only [hi, runs_pure] at h
      obtain ⟨-, rfl⟩ := h
      refine .inl ⟨rfl, fun r f hr => ?_⟩
      rw [hrow, hi] at hr
      cases hr
  | some r =>
      rw [hi] at hrow
      simp only [hi, runs_bind, runs_readFile, runs_ite, runs_pure] at h
      obtain ⟨f, s₂, ⟨hf, rfl⟩, ⟨hfd, h⟩ | ⟨hfd, -, rfl⟩⟩ := h
      · right
        simp only [closeSlot, runs_ite, runs_bind] at h
        -- the last step of both branches clears the slot
        have hclear : ∀ {t : Kernel}, (Ledger.of t).setSlot p i none = Ledger.of s' →
            (Ledger.of s').row p i = none := by
          intro t ht
          rw [← ht, Ledger.setSlot_row]
          simp
        rcases h with ⟨hdup, _, s₃, hdes, hset⟩ | ⟨hdup, _, s₃, hglob, hset⟩
        · have hd := runs_destroyDup hdes
          subst hd
          have hs' := (of_setSlot hset).1
          refine ⟨?_, hclear hs'.symm⟩
          rw [hs']
          exact .dup hrow hf hfd hdup
        · have hs' := (of_setSlot hset).1
          have hg := runs_closeFileOnGtable hglob
          refine ⟨?_, hclear hs'.symm⟩
          rw [hs']
          obtain ⟨f', hf', hk⟩ := hwf.slots p i r hrow
          have e : f' = f := Option.some.inj (hf'.symm.trans hf)
          subst e
          cases hk with
          | std h3 =>
              have hstd := hwf.std_status h3 hf
              rw [hstd.globalFd] at hg
              obtain ⟨k, g, n, hk, hgk, hof⟩ := GlobalClose.of_std hwf hg
              rw [hof]
              exact .std hrow hf hfd h3 hk hgk
          | opened ho =>
              obtain ⟨j, hj, hj'⟩ := ho
              rcases GlobalClose.of_opened hwf hj hj' hf hg with ⟨hone, hof⟩ | ⟨hne, hof⟩
              · rw [hof]
                exact .last hrow hf hfd hj hj' hone
              · rw [hof]
                exact .shared hrow hf hfd ⟨j, hj, hj'⟩ hne
          | dup _ hd =>
              rw [hd.isDupe] at hdup
              exact absurd rfl hdup
      · refine .inl ⟨rfl, fun r' g hr' hg => ?_⟩
        rw [hrow] at hr'
        cases hr'
        rw [hf] at hg
        cases hg
        exact hfd

/-- `close_file_on_ptable` closes every slot with the number, and no other. -/
theorem sim_closeFileOnPtable {p : ProcRef} {fd : Int} {s s' : Kernel} {u : Unit}
    (hwf : (Ledger.of s).WF) (hsole : (Ledger.of s).SoleDups p fd)
    (h : Runs (closeFileOnPtable p fd) s u s') :
    Ledger.Closes p fd (Ledger.of s) (Ledger.of s') ∧ (Ledger.of s').Unused p fd := by
  obtain ⟨_, s₁, hloop, hsize⟩ := (runs_bind _ _ _ _ _).1 h
  rw [of_bumpSize hsize]
  -- the slots already visited hold no file with the number
  have key := runs_forEach (b := closeFileRound p fd)
    (I := fun rest t => Ledger.Closes p fd (Ledger.of s) (Ledger.of t) ∧
      ∀ i, i ∉ rest → ∀ r f, (Ledger.of t).row p i = some r → (Ledger.of t).heap r = some f →
        f.localFd ≠ fd) ?_ (List.finRange openMax) ?_ hloop
  · exact ⟨key.1, fun i => key.2 i List.not_mem_nil⟩
  · rintro i is t v t' ⟨hcl, hdone⟩ hround
    rcases sim_closeFileRound hcl.wf_and_sole.1 hround with ⟨hsame, hi⟩ | ⟨hev, hi⟩
    · rw [hsame]
      refine ⟨hcl, fun k hk r f hr hf => ?_⟩
      by_cases hki : k = i
      · subst hki
        exact hi r f hr hf
      · exact hdone k (by simp [hki, hk]) r f hr hf
    · refine ⟨hcl.tail hev, fun k hk r f' hr hf' => ?_⟩
      by_cases hki : k = i
      · subst hki
        rw [hi] at hr
        cases hr
      · obtain ⟨f, hf, hsame⟩ := hev.shrinks.heap r f' hf'
        rw [hsame.localFd]
        exact hdone k (by simp [hki, hk]) r f (hev.shrinks.row p k r hr) hf
  · exact ⟨⟨.refl, hwf, hsole⟩, fun i hi => absurd (List.mem_finRange i) hi⟩

/-! ## The table of an exiting process -/

/-- One round of the loop of `close_all_files_ptable`. -/
theorem sim_closeAllSlot {p : ProcRef} {i : Fin openMax} {r : FileRef} {s s' : Kernel} {u : Unit}
    (hwf : (Ledger.of s).WF) (hrow : (Ledger.of s).row p i = some r)
    (h : Runs (closeAllSlot p i r) s u s') :
    (Ledger.of s' = Ledger.of s ∧ ∃ f, s.heap r = some f ∧ f.stdFileStatus ≠ -1) ∨
      (Ledger.Leave p (Ledger.of s) (Ledger.of s') ∧ (Ledger.of s').row p i = none) := by
  obtain ⟨f, hf, hk⟩ := hwf.slots p i r hrow
  have hf' : s.heap r = some f := hf
  have hclear : ∀ {t : Kernel}, Ledger.of s' = (Ledger.of t).setSlot p i none →
      (Ledger.of s').row p i = none := by
    intro t ht
    rw [ht, Ledger.setSlot_row]
    simp
  simp only [closeAllSlot, runs_bind, runs_lockFile, runs_readFile, runs_ite] at h
  obtain ⟨_, s₁, ⟨-, hfree, rfl⟩, g, s₂, ⟨hg, rfl⟩, h⟩ := h
  have e : g = f := Option.some.inj (hg.symm.trans hf')
  subst e
  rcases h with ⟨hstd, h⟩ | ⟨hstd, h⟩
  · right
    have hcount := hwf.counts r g hf hstd
    have hpos := Ledger.refs_pos hwf.live hrow
    cases hv : g.fileVnode with
    | none =>
        -- a file that is not a standard one has a vnode
        exfalso
        cases hk with
        | std h3 => exact (hwf.std_status h3 hf).stdFileStatus_ne hstd
        | opened ho => exact (hwf.opened hf ho).2.fileVnode hv
        | dup _ hd => exact hd.fileVnode.1 hv hstd
    | some v =>
        simp only [hv, runs_ite, runs_bind, runs_vopDecref, runs_writeFile, runs_lockRelease] at h
        rcases h with ⟨hlt, _, s₃, ⟨w, hw, rfl⟩, _, s₄, ⟨-, rfl⟩, _, s₅, ⟨-, rfl⟩, hset⟩ |
          ⟨hle, _, s₃, ⟨-, rfl⟩, _, s₄, hglob, hset⟩
        · cases hw
          have hs' := (of_setSlot hset).1
          refine ⟨?_, hclear hs'⟩
          have hev := Ledger.Leave.shared hrow hf hstd hlt
          rw [hv, addVnode_update] at hev
          rw [hs', ← hv]
          exact hev
        · have hs' := (of_setSlot hset).1
          refine ⟨?_, hclear hs'⟩
          rw [hs']
          cases hk with
          | std h3 => exact absurd hstd (hwf.std_status h3 hf).stdFileStatus_ne
          | opened ho =>
              obtain ⟨j, hj, hj'⟩ := ho
              have hzero : 0 ≤ Ledger.spare g := by
                unfold Ledger.spare
                split_ifs <;> omega
              have hone : g.refcount = 1 := by omega
              have hgc := runs_closeFileOnGtable hglob
              simp only [update_held_cancel hfree] at hgc
              rcases GlobalClose.of_opened hwf hj hj' hf hgc with ⟨-, hof⟩ | ⟨hne, -⟩
              · rw [hof]
                exact .last hrow hf hj hj' hone
              · exact absurd hone hne
          | dup _ hd =>
              -- a duplicate always has a reference to spare
              exfalso
              have hspare : Ledger.spare g = 1 := by simp [Ledger.spare, hd.isDupe]
              omega
  · left
    obtain ⟨-, rfl⟩ := (runs_lockRelease _ _ _ _).1 h
    exact ⟨rfl, g, hf', hstd⟩

theorem sim_closeAllRound {p : ProcRef} {i : Fin openMax} {s s' : Kernel} {u : Unit}
    (hwf : (Ledger.of s).WF) (h : Runs (closeAllRound p i) s u s') :
    (Ledger.of s' = Ledger.of s ∧
        ∀ r f, (Ledger.of s).row p i = some r → s.heap r = some f → f.stdFileStatus ≠ -1) ∨
      (Ledger.Leave p (Ledger.of s) (Ledger.of s') ∧ (Ledger.of s').row p i = none) := by
  simp only [closeAllRound, runs_bind, runs_readTable] at h
  obtain ⟨t, s₁, ⟨⟨P, hP, rfl⟩, rfl⟩, h⟩ := h
  have hrow : (Ledger.of s₁).row p i = P.pFiletable.files i := congrFun (rowOf_some hP) i
  -- setting the counter of the table leaves the ledger as it is
  have hsize : ∀ {s₂ : Kernel}, Runs (do
      let t ← readTable p
      writeTable p { t with size := 0 } : K Unit) s₂ u s' → Ledger.of s' = Ledger.of s₂ := by
    intro s₂ h₂
    simp only [runs_bind, runs_readTable, runs_writeTable] at h₂
    obtain ⟨t, s₃, ⟨⟨Q, hQ, rfl⟩, rfl⟩, Q', hQ', rfl⟩ := h₂
    rw [hQ] at hQ'
    cases hQ'
    exact of_writeProc hQ rfl rfl
  cases hi : P.pFiletable.files i with
  | none =>
      simp only [hi] at h
      refine .inl ⟨hsize h, fun r f hr => ?_⟩
      rw [hrow, hi] at hr
      cases hr
  | some r =>
      rw [hi] at hrow
      simp only [hi] at h
      obtain ⟨_, s₂, hslot, h⟩ := (runs_bind _ _ _ _ _).1 h
      rw [hsize h]
      rcases sim_closeAllSlot hwf hrow hslot with ⟨hsame, f, hf, hstd⟩ | hev
      · refine .inl ⟨hsame, fun r' g hr' hg => ?_⟩
        rw [hrow] at hr'
        cases hr'
        rw [hf] at hg
        cases hg
        exact hstd
      · exact .inr hev

/-- `close_all_files_ptable` lets go of every file that is not a standard file. -/
theorem sim_closeAllFilesPtable {p : ProcRef} {s s' : Kernel} {u : Unit}
    (hwf : (Ledger.of s).WF) (h : Runs (closeAllFilesPtable p) s u s') :
    Ledger.Leaves p (Ledger.of s) (Ledger.of s') ∧
      ∀ i r f, (Ledger.of s').row p i = some r → (Ledger.of s').heap r = some f →
        f.stdFileStatus ≠ -1 := by
  simp only [closeAllFilesPtable, runs_bind, runs_lockAcquire, runs_lockRelease] at h
  obtain ⟨_, s₁, ⟨hfree, rfl⟩, _, s₂, hloop, hheld, rfl⟩ := h
  have key := runs_forEach (b := closeAllRound p)
    (I := fun rest t => Ledger.Leaves p (Ledger.of s) (Ledger.of t) ∧
      ∀ i, i ∉ rest → ∀ r f, (Ledger.of t).row p i = some r → (Ledger.of t).heap r = some f →
        f.stdFileStatus ≠ -1) ?_ (List.finRange openMax) ?_ hloop
  · exact ⟨key.1, fun i => key.2 i List.not_mem_nil⟩
  · rintro i is t v t' ⟨hlv, hdone⟩ hround
    rcases sim_closeAllRound hlv.wf hround with ⟨hsame, hi⟩ | ⟨hev, hi⟩
    · rw [hsame]
      refine ⟨hlv, fun k hk r f hr hf => ?_⟩
      by_cases hki : k = i
      · subst hki
        exact hi r f hr hf
      · exact hdone k (by simp [hki, hk]) r f hr hf
    · refine ⟨⟨hlv.path.tail hev, hwf⟩, fun k hk r f' hr hf' => ?_⟩
      by_cases hki : k = i
      · subst hki
        rw [hi] at hr
        cases hr
      · obtain ⟨f, hf, hsame⟩ := hev.shrinks.heap r f' hf'
        have e : f'.stdFileStatus = f.stdFileStatus := by rw [hsame]
        rw [e]
        exact hdone k (by simp [hki, hk]) r f (hev.shrinks.row p k r hr) hf
  · exact ⟨⟨.refl, hwf⟩, fun i hi => absurd (List.mem_finRange i) hi⟩

/-! ## The table of a new process -/

theorem runs_increfCopied {x : Option VnodeRef} {s s' : Kernel} {u : Unit}
    (h : Runs (increfCopied x) s u s') :
    ∃ vn, s' = { s with vnFile := vn } ∧ Ledger.of s' = (Ledger.of s).addVnode x 1 := by
  cases x with
  | none =>
      obtain ⟨-, rfl⟩ := (runs_pure _ _ _ _).1 h
      exact ⟨s'.vnFile, rfl, rfl⟩
  | some v =>
      obtain rfl := (runs_vopIncref _ _ _ _).1 h
      refine ⟨_, rfl, ?_⟩
      rw [addVnode_update]
      rfl

/-- One round of the loop of `copy_p_filetable`. -/
theorem sim_copyRound {p q : ProcRef} {i : Fin openMax} {s s' : Kernel} {u : Unit}
    (hold : ∀ r, (Ledger.of s).row q i = some r → r < 3)
    (h : Runs (copyRound p q i) s u s') :
    ((Ledger.of s).row p i = none ∧ Ledger.of s' = Ledger.of s) ∨
      (∃ r, (Ledger.of s).row p i = some r ∧ Ledger.Share p q (Ledger.of s) (Ledger.of s') ∧
        (Ledger.of s').row q = Function.update ((Ledger.of s).row q) i (some r)) := by
  simp only [copyRound, runs_bind, runs_readTable] at h
  obtain ⟨t, s₁, ⟨⟨P, hP, rfl⟩, rfl⟩, h⟩ := h
  have hrow : (Ledger.of s₁).row p i = P.pFiletable.files i := congrFun (rowOf_some hP) i
  cases hi : P.pFiletable.files i with
  | none =>
      simp only [hi, runs_pure] at h
      obtain ⟨-, rfl⟩ := h
      exact .inl ⟨hrow.trans hi, rfl⟩
  | some r =>
      rw [hi] at hrow
      simp only [hi, runs_bind, runs_lockFile, runs_readFile, runs_writeFile,
        runs_lockRelease] at h
      obtain ⟨_, s₂, ⟨-, hfree, rfl⟩, f, s₃, ⟨hf, rfl⟩, _, s₄, hinc, _, s₅, ⟨-, rfl⟩, _, s₆,
        ⟨-, rfl⟩, hset⟩ := h
      obtain ⟨vn, rfl, hof⟩ := runs_increfCopied hinc
      have hs' := (of_setSlot hset).1
      have hvn : ((Ledger.of s₁).addVnode f.fileVnode 1).vnFile = vn :=
        (congrArg Ledger.vnFile hof).symm
      have hev := Ledger.Share.share (q := q) hrow hf hold
      have e : Ledger.of s' = (((Ledger.of s₁).addVnode f.fileVnode 1).setCount r f
          (f.refcount + 1)).setSlot q i (some r) := by
        rw [hs', ← hvn]
        rfl
      refine .inr ⟨r, hrow, ?_, ?_⟩
      · rw [e]
        exact hev
      · rw [e]
        simp [Ledger.setSlot, Ledger.setRow, Ledger.setCount, Ledger.setFile, Ledger.addVnode]

/-- `copy_p_filetable` gives the new process every file of its parent; where the parent has no
file, the standard file of the new process stays. -/
theorem sim_copyPFiletable {p q : ProcRef} {L : Ledger} {s s' : Kernel} {u : Unit}
    (h : Runs (copyPFiletable p q) s u s') (hwf : L.WF) (hof : Ledger.of s = L) (hpq : p ≠ q)
    (hq : q < L.nextProc) (hloaded : L.space q ≠ some false)
    (hstd : ∀ i r, L.row q i = some r → r < 3) :
    Ledger.Shares p q L (Ledger.of s') ∧
      ∀ i, (Ledger.of s').row q i = (L.row p i).or (L.row q i) := by
  subst hof
  simp only [copyPFiletable, runs_bind, runs_lockAcquire, runs_lockRelease] at h
  obtain ⟨_, s₁, ⟨-, rfl⟩, _, s₂, ⟨-, rfl⟩, _, s₃, hloop, _, s₄, ⟨-, rfl⟩, -, rfl⟩ := h
  have key := runs_forEach (b := copyRound p q)
    (I := fun rest t => rest.Nodup ∧ Ledger.Shares p q (Ledger.of s) (Ledger.of t) ∧
      (∀ i, i ∈ rest → (Ledger.of t).row q i = (Ledger.of s).row q i) ∧
      ∀ i, i ∉ rest →
        (Ledger.of t).row q i = ((Ledger.of s).row p i).or ((Ledger.of s).row q i))
    ?_ (List.finRange openMax) ?_ hloop
  · exact ⟨key.2.1, fun i => key.2.2.2 i List.not_mem_nil⟩
  · rintro i is t v t' ⟨hnd, hsh, htodo, hdone⟩ hround
    obtain ⟨hi, hnd⟩ := List.nodup_cons.1 hnd
    have hp : (Ledger.of t).row p = (Ledger.of s).row p := hsh.fills.other p hpq
    have hqi := htodo i List.mem_cons_self
    have hold : ∀ r, (Ledger.of t).row q i = some r → r < 3 := by
      intro r hr
      rw [hqi] at hr
      exact hstd i r hr
    rcases sim_copyRound hold hround with ⟨hnone, hsame⟩ | ⟨r, hr, hev, hrowq⟩
    · rw [hsame]
      refine ⟨hnd, hsh, fun k hk => htodo k (List.mem_cons_of_mem i hk), fun k hk => ?_⟩
      by_cases hki : k = i
      · subst hki
        rw [hp] at hnone
        rw [hqi, hnone, Option.none_or]
      · exact hdone k (by simp [hki, hk])
    · refine ⟨hnd, ⟨hsh.path.tail hev, hwf, hq, hloaded⟩, fun k hk => ?_, fun k hk => ?_⟩
      · have hki : k ≠ i := fun e => hi (e ▸ hk)
        rw [hrowq, Function.update_of_ne hki]
        exact htodo k (List.mem_cons_of_mem i hk)
      · by_cases hki : k = i
        · subst hki
          rw [hp] at hr
          rw [hrowq, hr, Function.update_self, Option.some_or]
        · rw [hrowq, Function.update_of_ne hki]
          exact hdone k (by simp [hki, hk])
  · refine ⟨List.nodup_finRange _, ⟨.refl, hwf, hq, hloaded⟩, fun i _ => rfl, fun i hi => ?_⟩
    exact absurd (List.mem_finRange i) hi

/-! ## New files -/

/-- The file `create_file` makes. -/
def blankFile (path : String) (c : CellRef) : File :=
  { refcount := 1, seekPos := some c, fileVnode := none, filePath := path, globalFd := -1
    localFd := -1, canRead := false, canWrite := false, isDupe := false, stdFileStatus := -1 }

theorem runs_createFile {alloc : Bool} {path : String} {s s' : Kernel} {x : Option FileRef}
    (h : Runs (createFile alloc path) s x s') :
    (alloc = false ∧ x = none ∧ s' = s) ∨
      (alloc = true ∧ x = some s.nextFile ∧ ∃ cs,
        s' = { s with
          cells := cs
          nextCell := s.nextCell + 1
          heap := Function.update s.heap s.nextFile (some (blankFile path s.nextCell))
          nextFile := s.nextFile + 1 }) := by
  simp only [createFile, runs_ite, runs_bind, runs_allocCell, runs_allocFile, runs_pure] at h
  rcases h with ⟨ha, c, s₁, ⟨rfl, rfl⟩, r, s₂, ⟨rfl, rfl⟩, rfl, rfl⟩ | ⟨ha, rfl, rfl⟩
  · exact .inr ⟨ha, rfl, _, rfl⟩
  · exact .inl ⟨by simpa using ha, rfl, rfl⟩

theorem runs_copySeek {x y : Option CellRef} {s s' : Kernel} {u : Unit}
    (h : Runs (copySeek x y) s u s') : ∃ cs, s' = { s with cells := cs } := by
  cases x with
  | none =>
      obtain ⟨-, rfl⟩ := (runs_pure _ _ _ _).1 h
      exact ⟨s'.cells, rfl⟩
  | some c =>
      cases y with
      | none =>
          obtain ⟨-, rfl⟩ := (runs_pure _ _ _ _).1 h
          exact ⟨s'.cells, rfl⟩
      | some d =>
          simp only [copySeek, runs_bind, runs_readCell, runs_writeCell] at h
          obtain ⟨v, s₁, ⟨-, rfl⟩, -, rfl⟩ := h
          exact ⟨_, rfl⟩

/-- The copy `copy_file` makes, before `dup_file` finishes it. -/
def copyOf (f n : File) : File :=
  { n with
    fileVnode := f.fileVnode, refcount := f.refcount + 1, localFd := f.localFd,
    globalFd := f.globalFd, canWrite := f.canWrite, canRead := f.canRead,
    stdFileStatus := f.stdFileStatus }

theorem runs_copyFile {alloc : Bool} {r g : FileRef} {s s' : Kernel} (hr : r ≠ s.nextFile)
    (h : Runs (copyFile alloc r) s g s') :
    g = s.nextFile ∧ ∃ f c, s.heap r = some f ∧
      s'.heap = Function.update (Function.update s.heap r
        (some { f with refcount := f.refcount + 1 })) s.nextFile
          (some (copyOf f (blankFile f.filePath c))) ∧
      s'.procs = s.procs ∧ s'.held = s.held ∧
      { Ledger.of s' with heap := s.heap } =
        { (Ledger.of s).addVnode f.fileVnode 1 with nextFile := s.nextFile + 1 } := by
  simp only [copyFile, runs_bind, runs_lockFile, runs_readFile] at h
  obtain ⟨_, s₁, ⟨-, hfree, rfl⟩, f, s₂, ⟨hf, rfl⟩, x, s₃, hcreate, h⟩ := h
  have hf' : s.heap r = some f := hf
  rcases runs_createFile hcreate with ⟨-, rfl, -⟩ | ⟨-, rfl, cs, rfl⟩
  · exact absurd h (runs_throw _ _ _ _)
  · simp only [runs_bind, runs_readFile, runs_writeFile, runs_lockRelease, runs_pure] at h
    obtain ⟨n, s₄, ⟨hn, rfl⟩, _, s₅, ⟨-, rfl⟩, _, s₆, hinc, _, s₇, hseek, _, s₈, ⟨-, rfl⟩, _, s₉,
      ⟨-, rfl⟩, rfl, rfl⟩ := h
    simp only [Function.update_self, Option.some.injEq] at hn
    subst hn
    obtain ⟨vn, rfl, hof⟩ := runs_increfCopied hinc
    obtain ⟨cs', rfl⟩ := runs_copySeek hseek
    refine ⟨rfl, f, s.nextCell, hf', ?_, rfl, update_held_cancel hfree, ?_⟩
    · simp only
      rw [Function.update_comm hr, Function.update_idem, Function.update_comm hr.symm]
      rfl
    · have hvn : vn = ((Ledger.of s).addVnode f.fileVnode 1).vnFile :=
        congrArg Ledger.vnFile hof
      subst hvn
      rfl

/-- `dup_file` duplicates the file that the old number denotes. -/
theorem sim_dupFile {alloc : Bool} {p : ProcRef} {oldfd newfd : Int} {g : FileRef}
    {s s' : Kernel}
    (hnew : ∀ i r f, (Ledger.of s).row p i = some r → s.heap r = some f → r ≠ s.nextFile)
    (h : Runs (dupFile alloc p oldfd newfd) s g s') :
    g = s.nextFile ∧ ∃ r f, (Ledger.of s).lookup p oldfd = some r ∧ s.heap r = some f ∧
      Ledger.of s' = (((Ledger.of s).addVnode f.fileVnode 1).setCount r f (f.refcount + 1)).alloc
        (Ledger.dupOf f newfd) := by
  obtain ⟨x, s₁, hlook, h⟩ := (runs_bind _ _ _ _ _).1 h
  obtain ⟨rfl, rfl⟩ := runs_pFiletableLookup hlook
  cases hx : lookupFd s₁ p oldfd with
  | none =>
      simp only [hx] at h
      exact absurd h (runs_throw _ _ _ _)
  | some r =>
      simp only [hx, runs_bind, runs_readFile, runs_writeFile, runs_pure] at h
      obtain ⟨g', s₂, hcopy, n, s₃, ⟨hn, rfl⟩, _, s₄, hfree, f', s₅, ⟨hf', rfl⟩, _, s₆, ⟨-, rfl⟩,
        rfl, rfl⟩ := h
      obtain ⟨cs, rfl⟩ := runs_freeCell hfree
      have hx' : (Ledger.of s₁).lookup p oldfd = some r := (lookupFd_eq s₁ p oldfd).symm.trans hx
      obtain ⟨i, f, hi, hf, -⟩ := Ledger.lookup_eq_some hx'
      have hne : r ≠ s₁.nextFile := hnew i r f hi hf
      obtain ⟨rfl, f₀, c, hf₀, hheap, hprocs, -, hrest⟩ := runs_copyFile hne hcopy
      have e : f₀ = f := Option.some.inj (hf₀.symm.trans hf)
      subst e
      -- both files are read back as `copy_file` left them
      simp only [hheap, Function.update_self, Option.some.injEq] at hn
      subst hn
      simp only [hheap, Function.update_of_ne hne, Function.update_self, Option.some.injEq] at hf'
      subst hf'
      refine ⟨rfl, r, f₀, hx', hf₀, ?_⟩
      have hnew : Function.update s₃.heap s₁.nextFile (some
          { copyOf f₀ (blankFile f₀.filePath c) with
            seekPos := f₀.seekPos, localFd := newfd, isDupe := true }) =
          Function.update (Function.update s₁.heap r (some { f₀ with refcount := f₀.refcount + 1 }))
            s₁.nextFile (some (Ledger.dupOf f₀ newfd)) := by
        rw [hheap, Function.update_idem]
        rfl
      have hother := hrest
      simp only [Ledger.of, Ledger.addVnode, Ledger.mk.injEq, true_and] at hother
      obtain ⟨h₁, h₂, h₃, h₄, h₅, h₆, h₇, h₈⟩ := hother
      simp only [Ledger.of, Ledger.alloc, Ledger.setCount, Ledger.setFile, Ledger.addVnode,
        Ledger.mk.injEq]
      exact ⟨hnew, h₁, h₂, h₃, h₄, h₅, h₆, h₇, h₈⟩

/-! ## Placing a file -/

/-- `put_file_on_ptable` fills the first empty slot, if there is one. -/
theorem sim_putFileOnPtable {p : ProcRef} {r : FileRef} {n : Int} {s s' : Kernel}
    (h : Runs (putFileOnPtable p r) s n s') :
    Ledger.Placed p r (Ledger.of s) (Ledger.of s') ∧ s'.heap = s.heap := by
  simp only [putFileOnPtable, runs_bind, runs_lockAcquire, runs_readTable] at h
  obtain ⟨_, s₁, ⟨-, rfl⟩, t, s₂, ⟨⟨P, hP, rfl⟩, rfl⟩, h⟩ := h
  have hP' : s.procs p = some P := hP
  have hrow : (Ledger.of s).row p = P.pFiletable.files := rowOf_some hP'
  cases hfree : firstFree P.pFiletable.files with
  | none =>
      simp only [hfree, runs_bind, runs_lockRelease, runs_pure] at h
      obtain ⟨_, s₃, ⟨-, rfl⟩, -, rfl⟩ := h
      refine ⟨.full fun i => ?_, rfl⟩
      show (Ledger.of s).row p i ≠ none
      rw [hrow]
      exact firstFree_eq_none hfree i
  | some i =>
      simp only [hfree, runs_bind, runs_writeTable, runs_lockRelease, runs_readFile,
        runs_pure] at h
      obtain ⟨_, s₃, ⟨Q, hQ, rfl⟩, _, s₄, ⟨-, rfl⟩, f, s₅, ⟨-, rfl⟩, -, rfl⟩ := h
      have e : Q = P := Option.some.inj (hQ.symm.trans hP)
      subst e
      refine ⟨?_, rfl⟩
      have hsp : spaceOf (Function.update s.procs p (some { Q with pFiletable :=
          { Q.pFiletable with files := Function.update Q.pFiletable.files i (some r)
                              size := Q.pFiletable.size + 1 } })) = spaceOf s.procs := by
        have e : some Q.pAddrspace = spaceOf s.procs p := by simp [spaceOf, hP']
        rw [spaceOf_update, Option.map_some, e, Function.update_eq_self]
      have hrow' : rowOf (Function.update s.procs p (some { Q with pFiletable :=
          { Q.pFiletable with files := Function.update Q.pFiletable.files i (some r)
                              size := Q.pFiletable.size + 1 } })) =
          Function.update (rowOf s.procs) p (Function.update (rowOf s.procs p) i (some r)) := by
        rw [rowOf_update, rowOf_some hP']
        rfl
      have hnone : (Ledger.of s).row p i = none := by
        rw [hrow]
        exact firstFree_eq_some hfree
      have hpl := Ledger.Placed.slot (r := r) hnone
      unfold Ledger.setSlot Ledger.setRow at hpl
      simp only [Ledger.of] at hpl ⊢
      rw [hsp, hrow']
      exact hpl

/-- `put_file_on_gtable` on a table with room. -/
theorem runs_putFileOnGtable {r : FileRef} {n : Int} {s s' : Kernel}
    (hsize : s.gft.size = used s.gft.openFiles) (hroom : s.gft.size ≠ openMax)
    (h : Runs (putFileOnGtable r) s n s') :
    ∃ j, s.gft.openFiles j = none ∧
      s' = { s with gft := { s.gft with
        openFiles := Function.update s.gft.openFiles j (some r)
        size := s.gft.size + 1 } } := by
  have hle := used_le s.gft.openFiles
  have hlt : s.gft.size < openMax := by
    rw [hsize] at hroom ⊢
    omega
  obtain ⟨j, hj⟩ := exists_firstFree (exists_none_of_used_lt (t := s.gft.openFiles) (by omega))
  simp only [putFileOnGtable, runs_bind, runs_lockAcquire, runs_get, runs_readFile] at h
  obtain ⟨_, s₁, ⟨hfree, rfl⟩, t, s₂, ⟨rfl, rfl⟩, f, s₃, ⟨-, rfl⟩, h⟩ := h
  simp only [hlt, hj, if_true, runs_bind, runs_modify, runs_pure, runs_lockRelease] at h
  obtain ⟨_, s₄, rfl, m, s₅, ⟨-, rfl⟩, _, s₆, ⟨-, rfl⟩, -, rfl⟩ := h
  refine ⟨j, firstFree_eq_some hj, ?_⟩
  simp only [update_held_cancel hfree]

theorem runs_getNextFd {n : Int} {s s' : Kernel} (h : Runs getNextFd s n s') :
    n = s.gft.nextFd ∧
      s' = { s with gft := { s.gft with nextFd := s.gft.nextFd + 1 } } := by
  simp only [getNextFd, runs_bind, runs_lockAcquire, runs_get, runs_modify, runs_lockRelease,
    runs_pure] at h
  obtain ⟨_, s₁, ⟨hfree, rfl⟩, t, s₂, ⟨rfl, rfl⟩, _, s₃, rfl, _, s₄, ⟨-, rfl⟩, rfl, rfl⟩ := h
  refine ⟨rfl, ?_⟩
  simp only [update_held_cancel hfree]

end Os161.Vfs

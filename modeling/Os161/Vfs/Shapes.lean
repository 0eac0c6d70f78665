import Os161.Vfs.Refine

set_option autoImplicit false

/-!
# The shapes of open files

What is true of the files in the tables in every run, also in one that leaves freed files behind:
a file is a console stream without seek position and vnode, or it has both; the three standard
files stay where they are, and a slot refers to a standard file only in the place of that file.
`Shaped` is weaker than the invariant of the ledger and needs no condition on the run. It is kept
by the moves of the ledger one by one, and from them by every function of the file layer.
-/

namespace Os161.Vfs

open Os161.Lib.Program
open Os161.Lib.Slots

/-- A console stream has neither a seek position nor a vnode and can be read and written; any
other file has both pointers. -/
inductive Shape (f : File) : Prop where
  | console : f.stdFileStatus = 0 ∨ f.stdFileStatus = 1 ∨ f.stdFileStatus = 2 →
      f.canRead = true → f.canWrite = true → f.seekPos = none → f.fileVnode = none → Shape f
  | data : f.stdFileStatus = -1 → f.seekPos ≠ none → f.fileVnode ≠ none → Shape f

theorem Shape.same {f f' : File} (h : Shape f) (hs : Ledger.SameFile f f') : Shape f' := by
  rw [hs]
  cases h with
  | console hk hr hw hc hv => exact .console hk hr hw hc hv
  | data hk hc hv => exact .data hk hc hv

/-- A file without one of its pointers is a console stream. -/
theorem Shape.missing_iff {f : File} (h : Shape f) : (f.seekPos = none ∨ f.fileVnode = none) ↔
    (f.stdFileStatus = 0 ∨ f.stdFileStatus = 1 ∨ f.stdFileStatus = 2) := by
  cases h with
  | console hstd _ _ hc _ => exact iff_of_true (.inl hc) hstd
  | data hstd hc hv =>
      refine iff_of_false ?_ ?_
      · rintro (h | h)
        · exact hc h
        · exact hv h
      · omega

/-- A standard file, with what `read` and `write` look at. -/
structure StdStream (k : Nat) (f : File) : Prop where
  std : Ledger.StdFile k f
  canRead : f.canRead = true
  canWrite : f.canWrite = true
  seekPos : f.seekPos = none

theorem StdStream.same {k : Nat} {f f' : File} (h : StdStream k f) (hs : Ledger.SameFile f f') :
    StdStream k f' := by
  obtain ⟨⟨h₁, h₂, h₃, h₄, h₅⟩, h₆, h₇, h₈⟩ := h
  rw [hs]
  exact ⟨⟨h₁, h₂, h₃, h₄, h₅⟩, h₆, h₇, h₈⟩

theorem StdStream.shape {k : Nat} {f : File} (h : StdStream k f) (hk : k < 3) : Shape f := by
  refine .console ?_ h.canRead h.canWrite h.seekPos h.std.fileVnode
  have hs := h.std.stdFileStatus
  omega

namespace Ledger

variable {L L' : Ledger} {p : ProcRef} {i : Fin openMax} {r : FileRef} {f : File}

/-- The invariant. -/
structure Shaped (L : Ledger) : Prop where
  three : 3 ≤ L.nextFile
  std : ∀ k, k < 3 → ∃ f, L.heap k = some f ∧ StdStream k f
  openStd : ∀ i : Fin openMax, i.val < 3 → L.openFiles i = some i.val
  lt : ∀ p i r, L.row p i = some r → r < L.nextFile
  inPlace : ∀ p (i : Fin openMax) r, L.row p i = some r → r < 3 → r = i.val
  shape : ∀ p i r f, L.row p i = some r → L.heap r = some f → Shape f

/-! ## Moves keep the invariant -/

/-- Moves that only touch the tables of the processes. -/
theorem Shaped.of_rows (h : L.Shaped) {row : ProcRef → Table openMax FileRef}
    {space : ProcRef → Option Bool} {nextProc : ProcRef}
    (hrow : ∀ q j r, row q j = some r → (∃ q', L.row q' j = some r) ∨ (r < 3 ∧ r = j.val) ∨
      (3 ≤ r ∧ r < L.nextFile ∧ ∀ f, L.heap r = some f → Shape f)) :
    ({ L with row := row, space := space, nextProc := nextProc } : Ledger).Shaped := by
  refine ⟨h.three, h.std, h.openStd, fun q j r hr => ?_, fun q j r hr h3 => ?_,
    fun q j r f hr hf => ?_⟩
  · rcases hrow q j r hr with ⟨q', hr'⟩ | ⟨h3, -⟩ | ⟨-, hlt, -⟩
    · exact h.lt q' j r hr'
    · exact lt_of_lt_of_le h3 h.three
    · exact hlt
  · rcases hrow q j r hr with ⟨q', hr'⟩ | ⟨-, he⟩ | ⟨hge, -, -⟩
    · exact h.inPlace q' j r hr' h3
    · exact he
    · exact absurd h3 (not_lt.2 hge)
  · rcases hrow q j r hr with ⟨q', hr'⟩ | ⟨h3, -⟩ | ⟨-, -, hs⟩
    · exact h.shape q' j r f hr' hf
    · obtain ⟨g, hg, hstd⟩ := h.std r h3
      have e : g = f := Option.some.inj (hg.symm.trans hf)
      subst e
      exact hstd.shape h3
    · exact hs f hf

theorem Shaped.clearSlot (h : L.Shaped) (p : ProcRef) (i : Fin openMax) :
    (L.setSlot p i none).Shaped := by
  refine h.of_rows fun q j r hr => .inl ⟨q, ?_⟩
  have hr' : (L.setSlot p i none).row q j = some r := hr
  rw [setSlot_row] at hr'
  split_ifs at hr'
  exact hr'

theorem Shaped.fillSlot (h : L.Shaped) (h3 : 3 ≤ r) (hlt : r < L.nextFile)
    (hs : ∀ f, L.heap r = some f → Shape f) : (L.setSlot p i (some r)).Shaped := by
  apply h.of_rows
  intro q j r' hr
  have hr' : (L.setSlot p i (some r)).row q j = some r' := hr
  rw [setSlot_row] at hr'
  split_ifs at hr' with hc
  · cases hr'
    exact .inr (.inr ⟨h3, hlt, hs⟩)
  · exact .inl ⟨q, hr'⟩

/-- A slot gets the file that stands in the same place of another table. -/
theorem Shaped.shareSlot (h : L.Shaped) {q : ProcRef} (hr : L.row p i = some r) :
    (L.setSlot q i (some r)).Shaped := by
  apply h.of_rows
  intro q' j r' hr'
  have hr₁ : (L.setSlot q i (some r)).row q' j = some r' := hr'
  rw [setSlot_row] at hr₁
  split_ifs at hr₁ with hc
  · cases hr₁
    obtain ⟨-, rfl⟩ := hc
    exact .inl ⟨p, hr⟩
  · exact .inl ⟨q', hr₁⟩

/-- Moves that change files behind the standard ones. -/
theorem Shaped.of_heap (h : L.Shaped) {heap : FileRef → Option File} {nextFile : FileRef}
    (hnext : L.nextFile ≤ nextFile)
    (hstd : ∀ k f, k < 3 → L.heap k = some f → ∃ f', heap k = some f' ∧ SameFile f f')
    (hheap : ∀ q j r f', L.row q j = some r → heap r = some f' →
      ∃ f, L.heap r = some f ∧ SameFile f f') :
    ({ L with heap := heap, nextFile := nextFile } : Ledger).Shaped := by
  refine ⟨le_trans h.three hnext, fun k hk => ?_, h.openStd,
    fun q j r hr => lt_of_lt_of_le (h.lt q j r hr) hnext, h.inPlace, fun q j r f' hr hf' => ?_⟩
  · obtain ⟨f, hf, hs⟩ := h.std k hk
    obtain ⟨f', hf', hsame⟩ := hstd k f hk hf
    exact ⟨f', hf', hs.same hsame⟩
  · obtain ⟨f, hf, hsame⟩ := hheap q j r f' hr hf'
    exact (h.shape q j r f hr hf).same hsame

theorem Shaped.free (h : L.Shaped) (h3 : 3 ≤ r) : (L.setFile r none).Shaped := by
  refine h.of_heap le_rfl (fun k f hk hf => ⟨f, ?_, rfl⟩) fun q j r' f' hr' hf' => ⟨f', ?_, rfl⟩
  · have hne : k ≠ r := ne_of_lt (lt_of_lt_of_le hk h3)
    rw [Function.update_of_ne hne]
    exact hf
  · by_cases he : r' = r
    · subst he
      simp at hf'
    · simpa [he] using hf'

theorem Shaped.setCount (h : L.Shaped) (hf : L.heap r = some f) (n : Int) :
    (L.setCount r f n).Shaped := by
  have hsame : ∀ k g, L.heap k = some g →
      ∃ g', Function.update L.heap r (some { f with refcount := n }) k = some g' ∧ SameFile g g' := by
    intro k g hg
    by_cases he : k = r
    · subst he
      rw [hf] at hg
      cases hg
      exact ⟨_, Function.update_self _ _ _, rfl⟩
    · exact ⟨g, by simpa [he] using hg, rfl⟩
  apply h.of_heap le_rfl (fun k g _ hg => hsame k g hg)
  intro q j k g' hr hg'
  by_cases he : k = r
  · subst he
    rw [Function.update_self] at hg'
    cases hg'
    exact ⟨f, hf, rfl⟩
  · exact ⟨g', by simpa [he] using hg', rfl⟩

/-- A file that no slot refers to may be written. -/
theorem Shaped.setOff (h : L.Shaped) (h3 : 3 ≤ r) (hoff : ∀ q j, L.row q j ≠ some r)
    (x : Option File) : (L.setFile r x).Shaped := by
  refine h.of_heap le_rfl (fun k f hk hf => ⟨f, ?_, rfl⟩) fun q j r' f' hr' hf' => ⟨f', ?_, rfl⟩
  · have hne : k ≠ r := ne_of_lt (lt_of_lt_of_le hk h3)
    rw [Function.update_of_ne hne]
    exact hf
  · have hne : r' ≠ r := by
      rintro rfl
      exact hoff q j hr'
    simpa [hne] using hf'

theorem Shaped.ne_nextFile (h : L.Shaped) {q : ProcRef} {j : Fin openMax} :
    L.row q j ≠ some L.nextFile := fun hr => lt_irrefl _ (h.lt q j _ hr)

theorem Shaped.alloc (h : L.Shaped) (f : File) : (L.alloc f).Shaped := by
  have hoff := h.setOff h.three (fun q j => h.ne_nextFile) (some f)
  refine ⟨le_trans h.three (Nat.le_succ _), hoff.std, hoff.openStd, fun q j r hr => ?_, hoff.inPlace,
    hoff.shape⟩
  exact lt_trans (h.lt q j r hr) (Nat.lt_succ_self _)

/-- Moves on the global table that leave the first three entries alone. -/
theorem Shaped.of_global (h : L.Shaped) {openFiles : Table openMax FileRef}
    (hopen : ∀ i : Fin openMax, i.val < 3 → openFiles i = L.openFiles i) (nextFd size : Int)
    (vnFile : VnodeRef → Int) :
    ({ L with openFiles := openFiles, nextFd := nextFd, size := size, vnFile := vnFile } :
      Ledger).Shaped :=
  ⟨h.three, h.std, fun i hi => (hopen i hi).trans (h.openStd i hi), h.lt, h.inPlace, h.shape⟩

theorem Shaped.addVnode (h : L.Shaped) (x : Option VnodeRef) (d : Int) : (L.addVnode x d).Shaped :=
  h.of_global (fun _ _ => rfl) L.nextFd L.size _

theorem Shaped.addRow (h : L.Shaped) : L.addRow.Shaped := by
  apply h.of_rows
  intro q j r hr
  by_cases hq : q = L.nextProc
  · subst hq
    rw [Function.update_self] at hr
    unfold stdRow at hr
    split_ifs at hr with hj
    rw [h.openStd j hj] at hr
    cases hr
    exact .inr (.inl ⟨hj, rfl⟩)
  · rw [Function.update_of_ne hq] at hr
    exact .inl ⟨q, hr⟩

theorem Shaped.dropRow (h : L.Shaped) (p : ProcRef) : (L.dropRow p).Shaped := by
  apply h.of_rows
  intro q j r hr
  by_cases hq : q = p
  · subst hq
    simp at hr
  · rw [Function.update_of_ne hq] at hr
    exact .inl ⟨q, hr⟩

/-- A file with a vnode, a duplicate, or a file that is no console stream is not one of the three
standard files. -/
theorem Shaped.three_le (h : L.Shaped) (hf : L.heap r = some f)
    (hnot : f.fileVnode ≠ none ∨ f.isDupe = true ∨ f.stdFileStatus = -1) : 3 ≤ r := by
  by_contra hc
  have hlt : r < 3 := not_le.1 hc
  obtain ⟨g, hg, hs⟩ := h.std r hlt
  have e : g = f := Option.some.inj (hg.symm.trans hf)
  subst e
  rcases hnot with hv | hd | hk
  · exact hv hs.std.fileVnode
  · rw [hs.std.isDupe] at hd
    cases hd
  · have := hs.std.stdFileStatus
    omega

end Ledger

/-! ## The functions of the file layer -/

variable {s s' : Kernel} {p : ProcRef} {i : Fin openMax} {r : FileRef} {u : Unit}

/-- Rewriting a process without touching its slots. -/
theorem shaped_writeProc {P Q : Os161.Proc} (hs : (Ledger.of s).Shaped) (hP : s.procs p = some P)
    (hfiles : Q.pFiletable.files = P.pFiletable.files) :
    (Ledger.of { s with procs := Function.update s.procs p (some Q) }).Shaped := by
  have hrow : rowOf (Function.update s.procs p (some Q)) = rowOf s.procs := by
    rw [rowOf_update, Option.elim_some, hfiles, ← rowOf_some hP, Function.update_eq_self]
  refine hs.of_rows fun q j r hr => .inl ⟨q, ?_⟩
  rw [hrow] at hr
  exact hr

theorem shaped_destroyDup {f : File} (hs : (Ledger.of s).Shaped) (hf : s.heap r = some f)
    (hnot : f.isDupe = true ∨ f.stdFileStatus = -1) (h : Runs (destroyDup r) s u s') :
    (Ledger.of s').Shaped := by
  have h3 : 3 ≤ r := hs.three_le hf (.inr hnot)
  rw [runs_destroyDup h]
  exact hs.free h3

theorem shaped_closeFileOnGtable {fd : Int} (hs : (Ledger.of s).Shaped)
    (h : Runs (closeFileOnGtable fd) s u s') : (Ledger.of s').Shaped := by
  cases runs_closeFileOnGtable h with
  | absent _ => exact hs
  | @last i r f v cs hi hf _ _ hv =>
      have h3 : 3 ≤ r := hs.three_le hf (.inl (by simp [hv]))
      -- the entry that is cleared is not one of the first three
      have hopen : ∀ j : Fin openMax, j.val < 3 →
          Function.update s.gft.openFiles i none j = s.gft.openFiles j := by
        intro j hj
        refine Function.update_of_ne ?_ _ _
        rintro rfl
        have e : r = j.val := Option.some.inj (hi.symm.trans (hs.openStd j hj))
        rw [e] at h3
        exact absurd hj (not_lt.2 h3)
      exact (hs.free h3).of_global hopen s.gft.nextFd (s.gft.size - 1) _
  | shared hi hf _ _ => exact hs.setCount hf _

theorem shaped_setSlot_none (hs : (Ledger.of s).Shaped) (h : Runs (setSlot p i none) s u s') :
    (Ledger.of s').Shaped := by
  rw [(of_setSlot h).1]
  exact hs.clearSlot p i

theorem shaped_closeFileRound {fd : Int} (hs : (Ledger.of s).Shaped)
    (h : Runs (closeFileRound p fd i) s u s') : (Ledger.of s').Shaped := by
  simp only [closeFileRound, runs_bind, runs_readTable] at h
  obtain ⟨t, s₁, ⟨⟨P, hP, rfl⟩, rfl⟩, h⟩ := h
  cases hi : P.pFiletable.files i with
  | none =>
      simp only [hi, runs_pure] at h
      obtain ⟨-, rfl⟩ := h
      exact hs
  | some r =>
      simp only [hi, closeSlot, runs_bind, runs_readFile, runs_ite, runs_pure] at h
      obtain ⟨f, s₂, ⟨hf, rfl⟩, ⟨-, ⟨hdup, _, s₃, hdes, hset⟩ | ⟨-, _, s₃, hglob, hset⟩⟩ |
        ⟨-, -, rfl⟩⟩ := h
      · exact shaped_setSlot_none (shaped_destroyDup hs hf (.inl hdup) hdes) hset
      · exact shaped_setSlot_none (shaped_closeFileOnGtable hs hglob) hset
      · exact hs

theorem shaped_closeFileOnPtable {fd : Int} (hs : (Ledger.of s).Shaped)
    (h : Runs (closeFileOnPtable p fd) s u s') : (Ledger.of s').Shaped := by
  obtain ⟨_, s₁, hloop, hsize⟩ := (runs_bind _ _ _ _ _).1 h
  rw [of_bumpSize hsize]
  exact runs_forEach (I := fun _ t => (Ledger.of t).Shaped)
    (fun _ _ _ _ _ ht hround => shaped_closeFileRound ht hround) _ hs hloop

theorem shaped_closeAllSlot (hs : (Ledger.of s).Shaped) (h : Runs (closeAllSlot p i r) s u s') :
    (Ledger.of s').Shaped := by
  simp only [closeAllSlot, runs_bind, runs_lockFile, runs_readFile, runs_ite] at h
  obtain ⟨_, s₁, ⟨-, -, rfl⟩, f, s₂, ⟨hf, rfl⟩, ⟨hk, h⟩ | ⟨-, h⟩⟩ := h
  · have hf' : s.heap r = some f := hf
    cases hv : f.fileVnode with
    | none =>
        simp only [hv, runs_ite, runs_bind, runs_writeFile, runs_lockRelease] at h
        rcases h with ⟨-, _, s₃, ⟨-, rfl⟩, _, s₄, ⟨-, rfl⟩, hset⟩ |
          ⟨-, _, s₃, ⟨-, rfl⟩, _, s₄, hdes, hset⟩
        · refine shaped_setSlot_none ?_ hset
          rw [← hv]
          exact hs.setCount hf' _
        · have hs₃ := runs_destroyDup hdes
          refine shaped_setSlot_none ?_ hset
          rw [hs₃]
          exact hs.free (hs.three_le hf' (.inr (.inr hk)))
    | some v =>
        simp only [hv, runs_ite, runs_bind, runs_vopDecref, runs_writeFile, runs_lockRelease] at h
        rcases h with ⟨-, _, s₃, ⟨w, -, rfl⟩, _, s₄, ⟨-, rfl⟩, _, s₅, ⟨-, rfl⟩, hset⟩ |
          ⟨-, _, s₃, ⟨-, rfl⟩, _, s₄, hglob, hset⟩
        · refine shaped_setSlot_none ?_ hset
          rw [← hv]
          exact (hs.setCount hf' _).of_global (fun _ _ => rfl) s.gft.nextFd s.gft.size _
        · refine shaped_setSlot_none (shaped_closeFileOnGtable ?_ hglob) hset
          exact hs
  · obtain ⟨-, rfl⟩ := (runs_lockRelease _ _ _ _).1 h
    exact hs

theorem shaped_closeAllRound (hs : (Ledger.of s).Shaped) (h : Runs (closeAllRound p i) s u s') :
    (Ledger.of s').Shaped := by
  have hsize : ∀ {s₂ : Kernel}, Runs (do
      let t ← readTable p
      writeTable p { t with size := 0 } : K Unit) s₂ u s' → Ledger.of s' = Ledger.of s₂ := by
    intro s₂ h₂
    simp only [runs_bind, runs_readTable, runs_writeTable] at h₂
    obtain ⟨t, s₃, ⟨⟨Q, hQ, rfl⟩, rfl⟩, Q', hQ', rfl⟩ := h₂
    rw [hQ] at hQ'
    cases hQ'
    exact of_writeProc hQ rfl rfl
  simp only [closeAllRound, runs_bind, runs_readTable] at h
  obtain ⟨t, s₁, ⟨⟨P, hP, rfl⟩, rfl⟩, h⟩ := h
  cases hi : P.pFiletable.files i with
  | none =>
      simp only [hi] at h
      rw [hsize h]
      exact hs
  | some r =>
      simp only [hi] at h
      obtain ⟨_, s₂, hslot, h⟩ := (runs_bind _ _ _ _ _).1 h
      rw [hsize h]
      exact shaped_closeAllSlot hs hslot

theorem shaped_pFiletableDestroy (hs : (Ledger.of s).Shaped)
    (h : Runs (pFiletableDestroy p) s u s') : (Ledger.of s').Shaped := by
  simp only [pFiletableDestroy, closeAllFilesPtable, runs_bind, runs_lockAcquire, runs_lockRelease,
    runs_lockDestroy] at h
  obtain ⟨_, s₁, ⟨_, s₂, ⟨-, rfl⟩, _, s₃, hloop, -, rfl⟩, -, rfl⟩ := h
  have hend : (Ledger.of s₃).Shaped := by
    refine runs_forEach (b := closeAllRound p) (I := fun _ t => (Ledger.of t).Shaped)
      (fun _ _ _ _ _ ht hround => shaped_closeAllRound ht hround) (List.finRange openMax) ?_ hloop
    exact hs
  exact hend

theorem shaped_copyRound {q : ProcRef} (hs : (Ledger.of s).Shaped)
    (h : Runs (copyRound p q i) s u s') : (Ledger.of s').Shaped := by
  simp only [copyRound, runs_bind, runs_readTable] at h
  obtain ⟨t, s₁, ⟨⟨P, hP, rfl⟩, rfl⟩, h⟩ := h
  cases hi : P.pFiletable.files i with
  | none =>
      simp only [hi, runs_pure] at h
      obtain ⟨-, rfl⟩ := h
      exact hs
  | some r =>
      have hrow : (Ledger.of s₁).row p i = some r := (congrFun (rowOf_some hP) i).trans hi
      simp only [hi, runs_bind, runs_lockFile, runs_readFile, runs_writeFile,
        runs_lockRelease] at h
      obtain ⟨_, s₂, ⟨-, -, rfl⟩, f, s₃, ⟨hf, rfl⟩, _, s₄, hinc, _, s₅, ⟨-, rfl⟩, _, s₆,
        ⟨-, rfl⟩, hset⟩ := h
      obtain ⟨vn, rfl, -⟩ := runs_increfCopied hinc
      rw [(of_setSlot hset).1]
      have hf' : (Ledger.of s₁).heap r = some f := hf
      have hmid := (hs.setCount hf' (f.refcount + 1)).of_global (fun _ _ => rfl) s₁.gft.nextFd
        s₁.gft.size vn
      exact hmid.shareSlot (p := p) hrow

theorem shaped_copyPFiletable {q : ProcRef} (hs : (Ledger.of s).Shaped)
    (h : Runs (copyPFiletable p q) s u s') : (Ledger.of s').Shaped := by
  simp only [copyPFiletable, runs_bind, runs_lockAcquire, runs_lockRelease] at h
  obtain ⟨_, s₁, ⟨-, rfl⟩, _, s₂, ⟨-, rfl⟩, _, s₃, hloop, _, s₄, ⟨-, rfl⟩, -, rfl⟩ := h
  have hend : (Ledger.of s₃).Shaped := by
    refine runs_forEach (b := copyRound p q) (I := fun _ t => (Ledger.of t).Shaped)
      (fun _ _ _ _ _ ht hround => shaped_copyRound ht hround) (List.finRange openMax) ?_ hloop
    exact hs
  exact hend

/-- A file behind the standard ones may be put in any slot. -/
theorem shaped_putFileOnPtable {n : Int} (hs : (Ledger.of s).Shaped) (h3 : 3 ≤ r)
    (hlt : r < s.nextFile) (hshape : ∀ f, s.heap r = some f → Shape f)
    (h : Runs (putFileOnPtable p r) s n s') : (Ledger.of s').Shaped := by
  have hpl := (sim_putFileOnPtable h).1
  generalize Ledger.of s' = L' at hpl
  cases hpl with
  | slot _ => exact hs.fillSlot h3 hlt hshape
  | full _ => exact hs

/-- `put_file_on_gtable` never replaces an entry. -/
theorem runs_putFileOnGtable_keep {n : Int} (h : Runs (putFileOnGtable r) s n s') :
    ∃ openFiles size, s' = { s with gft := { s.gft with
        openFiles := openFiles, size := size } } ∧
      ∀ j, s.gft.openFiles j ≠ none → openFiles j = s.gft.openFiles j := by
  simp only [putFileOnGtable, runs_bind, runs_lockAcquire, runs_get, runs_readFile] at h
  obtain ⟨_, s₁, ⟨hfree, rfl⟩, t, s₂, ⟨rfl, rfl⟩, f, s₃, ⟨-, rfl⟩, h⟩ := h
  by_cases hlt : s.gft.size < openMax
  · cases hj : firstFree s.gft.openFiles with
    | none =>
        simp only [hlt, hj, if_true, runs_bind, runs_pure, runs_lockRelease] at h
        obtain ⟨m, s₄, ⟨-, rfl⟩, _, s₅, ⟨-, rfl⟩, -, rfl⟩ := h
        exact ⟨s.gft.openFiles, s.gft.size, by simp only [update_held_cancel hfree], fun _ _ => rfl⟩
    | some k =>
        simp only [hlt, hj, if_true, runs_bind, runs_modify, runs_pure, runs_lockRelease] at h
        obtain ⟨_, s₄, rfl, m, s₅, ⟨-, rfl⟩, _, s₆, ⟨-, rfl⟩, -, rfl⟩ := h
        refine ⟨_, _, by simp only [update_held_cancel hfree]; rfl, fun j hne => ?_⟩
        refine Function.update_of_ne ?_ _ _
        rintro rfl
        exact hne (firstFree_eq_some hj)
  · simp only [hlt, if_false, runs_bind, runs_pure, runs_lockRelease] at h
    obtain ⟨m, s₄, ⟨-, rfl⟩, _, s₅, ⟨-, rfl⟩, -, rfl⟩ := h
    exact ⟨s.gft.openFiles, s.gft.size, by simp only [update_held_cancel hfree], fun _ _ => rfl⟩

theorem shaped_putFileOnGtable {n : Int} (hs : (Ledger.of s).Shaped)
    (h : Runs (putFileOnGtable r) s n s') :
    (Ledger.of s').Shaped ∧ s'.heap = s.heap ∧ s'.nextFile = s.nextFile := by
  obtain ⟨openFiles, size, rfl, hkeep⟩ := runs_putFileOnGtable_keep h
  refine ⟨hs.of_global (fun j hj => hkeep j ?_) s.gft.nextFd size s.vnFile, rfl, rfl⟩
  have hj' : s.gft.openFiles j = some j.val := hs.openStd j hj
  simp [hj']

/-- `dup_file` makes a file of the shape of the one it duplicates. -/
theorem shaped_dupFile {alloc : Bool} {oldfd newfd : Int} {g : FileRef}
    (hs : (Ledger.of s).Shaped) (h : Runs (dupFile alloc p oldfd newfd) s g s') :
    (Ledger.of s').Shaped ∧ 3 ≤ g ∧ g < s'.nextFile ∧ ∀ f, s'.heap g = some f → Shape f := by
  obtain ⟨rfl, r, f, hx, hf, hof⟩ := sim_dupFile
    (fun i r f hr _ => ne_of_lt (hs.lt p i r hr)) h
  have hf' : (Ledger.of s).heap r = some f := hf
  obtain ⟨i, f', hi, hfi, -⟩ := Ledger.lookup_eq_some hx
  have e : f' = f := Option.some.inj (hfi.symm.trans hf')
  subst e
  have hshape := hs.shape p i r f' hi hf'
  have hnew : s'.heap s.nextFile = some (Ledger.dupOf f' newfd) := by
    have := congrArg Ledger.heap hof
    have e : s'.heap = _ := this
    rw [e]
    exact Ledger.alloc_heap_self _ _
  have hnext : s'.nextFile = s.nextFile + 1 := congrArg Ledger.nextFile hof
  refine ⟨?_, hs.three, ?_, fun f hf => ?_⟩
  · rw [hof]
    exact ((hs.addVnode f'.fileVnode 1).setCount hf' _).alloc _
  · rw [hnext]
    exact Nat.lt_succ_self _
  · rw [hnew] at hf
    cases hf
    cases hshape with
    | console hk hr hw hc hv => exact .console hk hr hw hc hv
    | data hk hc hv => exact .data hk hc hv

end Os161.Vfs

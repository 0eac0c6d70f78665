import Os161.Vfs.Refine

set_option autoImplicit false

/-!
# Descriptor numbers

The number of a slot is the `local_fd` of the file it refers to. Two properties of these numbers:
`Unique`, no process has two slots with one number, and `Holds`, a number of a process denotes a
given file and no other. Slots that go away keep both; a new slot keeps them when its number was
not in use (`Adds`).
-/

namespace Os161.Vfs.Ledger

open Os161.Lib.Slots

variable {L L' : Ledger} {p q : ProcRef} {fd : Int}

/-- The number of the file in a slot. -/
def number (L : Ledger) (p : ProcRef) (i : Fin openMax) : Option Int :=
  (L.row p i).bind fun r => (L.heap r).map File.localFd

theorem number_eq_some {i : Fin openMax} {n : Int} :
    L.number p i = some n ↔ ∃ r f, L.row p i = some r ∧ L.heap r = some f ∧ f.localFd = n := by
  simp [number, Option.bind_eq_some_iff, Option.map_eq_some_iff]

theorem Unused.number_ne (h : L.Unused p fd) (i : Fin openMax) : L.number p i ≠ some fd := by
  intro hn
  obtain ⟨r, f, hr, hf, hfd⟩ := number_eq_some.1 hn
  exact h i r f hr hf hfd

/-! ## Uniqueness -/

/-- No process has two slots with one number. -/
def Unique (L : Ledger) : Prop :=
  ∀ p i j n, L.number p i = some n → L.number p j = some n → i = j

theorem Unique.of_sub (h : L.Unique)
    (hsub : ∀ q i n, L'.number q i = some n → L.number q i = some n) : L'.Unique :=
  fun q i j n hi hj => h q i j n (hsub q i n hi) (hsub q j n hj)

theorem Shrinks.number (h : Shrinks p L L') {q : ProcRef} {i : Fin openMax} {n : Int}
    (hn : L'.number q i = some n) : L.number q i = some n := by
  obtain ⟨r, f', hr, hf', hfd⟩ := number_eq_some.1 hn
  obtain ⟨f, hf, hsame⟩ := h.heap r f' hf'
  exact number_eq_some.2 ⟨r, f, h.row q i r hr, hf, hsame.localFd.symm.trans hfd⟩

/-- Closing a number keeps the slots with other numbers. -/
theorem Closes.slot_keep (h : Closes p fd L L') {q : ProcRef} {j : Fin openMax} {r : FileRef}
    (hr : L.row q j = some r) (hn : L.number q j ≠ some fd) : L'.row q j = some r := by
  refine (h.keeps (I := fun M => M.row q j = some r ∧ M.number q j ≠ some fd)
    (fun M M' hwf hsole hM hc => ?_) ⟨hr, hn⟩).1
  obtain ⟨f, hf, -⟩ := hwf.slots q j r hM.1
  have hne : f.localFd ≠ fd := fun he => hM.2 (number_eq_some.2 ⟨r, f, hM.1, hf, he⟩)
  exact ⟨hc.row_keep hM.1 hf fun _ => hne, fun hn' => hM.2 (hc.shrinks.number hn')⟩

/-- A process that disappears leaves the numbers of the others alone. -/
theorem Gone.number (h : Gone p L L') {q : ProcRef} {i : Fin openMax} {n : Int}
    (hn : L'.number q i = some n) : L.number q i = some n := by
  obtain ⟨L₁, hl, -, rfl⟩ := h.ends
  apply hl.shrinks.number
  obtain ⟨r, f, hr, hf, hfd⟩ := number_eq_some.1 hn
  refine number_eq_some.2 ⟨r, f, ?_, hf, hfd⟩
  by_cases hq : q = p
  · subst hq
    simp [dropRow] at hr
  · simpa [dropRow, hq] using hr

/-- At most one slot of `p` is added; it refers to the new file, which has the number `m` and the
vnode `v`. -/
structure Adds (p : ProcRef) (m : Int) (v : Option VnodeRef) (L L' : Ledger) : Prop where
  keep : ∀ q j r, L.row q j = some r → L'.row q j = some r
  slot : ∃ i, ∀ q j r, L'.row q j = some r →
    L.row q j = some r ∨ (q = p ∧ j = i ∧ r = L.nextFile)
  old : ∀ r f, L.heap r = some f → ∃ f', L'.heap r = some f' ∧ SameFile f f'
  new : ∃ f, L'.heap L.nextFile = some f ∧ f.localFd = m ∧ f.fileVnode = v
  space : L'.space = L.space

theorem Placed.adds {M : Ledger} {f : File} (hpl : Placed p L.nextFile M L')
    (hrow : M.row = L.row) (hspace : M.space = L.space)
    (hold : ∀ r g, L.heap r = some g → ∃ g', M.heap r = some g' ∧ SameFile g g')
    (hnew : M.heap L.nextFile = some f) : Adds p f.localFd f.fileVnode L L' := by
  cases hpl with
  | @slot i hi =>
      refine ⟨fun q j r hr => ?_, ⟨i, fun q j r hr => ?_⟩, hold, ⟨f, hnew, rfl, rfl⟩, hspace⟩
      · rw [setSlot_row, if_neg, hrow]
        · exact hr
        · rintro ⟨rfl, rfl⟩
          rw [hrow, hr] at hi
          cases hi
      · rw [setSlot_row] at hr
        split_ifs at hr with hc
        · cases hr
          exact .inr ⟨hc.1, hc.2, rfl⟩
        · rw [hrow] at hr
          exact .inl hr
  | full _ =>
      refine ⟨fun q j r hr => by rw [hrow]; exact hr, ⟨⟨0, by decide⟩, fun q j r hr => .inl ?_⟩, hold,
        ⟨f, hnew, rfl, rfl⟩, hspace⟩
      rw [← hrow]
      exact hr

theorem Open.adds {f : File} (ho : Open p f L L') (hwf : L.WF) :
    Adds p L.nextFd f.fileVnode L L' := by
  cases ho with
  | @opened j _ hnew hj hpl =>
      rw [← hnew.localFd]
      refine hpl.adds rfl rfl (fun r g hg => ⟨g, ?_, rfl⟩) (alloc_heap_self _ f)
      have hne : r ≠ L.nextFile := ne_of_lt (hwf.lt_nextFile hg)
      simpa [register, alloc, addVnode, hne] using hg

theorem Dup.adds {r : FileRef} {f : File} (hd : Dup p r f fd L L') (hwf : L.WF) :
    Adds p fd f.fileVnode L L' := by
  cases hd with
  | @dup i _ hr hf hpl =>
      have hadds : Adds p (dupOf f fd).localFd (dupOf f fd).fileVnode L L' := by
        refine hpl.adds rfl rfl (fun r' g hg => ?_) (alloc_heap_self _ (dupOf f fd))
        have hne : r' ≠ L.nextFile := ne_of_lt (hwf.lt_nextFile hg)
        by_cases he : r' = r
        · subst he
          rw [hf] at hg
          cases hg
          exact ⟨{ f with refcount := f.refcount + 1 },
            by simp [alloc, setCount, setFile, addVnode, hne], rfl⟩
        · exact ⟨g, by simpa [alloc, setCount, setFile, addVnode, hne, he] using hg, rfl⟩
      exact hadds

/-- A slot that was there before keeps its number. -/
theorem Adds.number_old {m : Int} {v : Option VnodeRef} (h : Adds p m v L L') (hwf : L.WF)
    {q : ProcRef} {j : Fin openMax} {r : FileRef} {n : Int} (hr : L.row q j = some r)
    (hn : L'.number q j = some n) : L.number q j = some n := by
  obtain ⟨r', f', hr', hf', hfd⟩ := number_eq_some.1 hn
  rw [h.keep q j r hr] at hr'
  cases hr'
  obtain ⟨f, hf, -⟩ := hwf.slots q j r hr
  obtain ⟨g, hg, hsame⟩ := h.old r f hf
  rw [hf'] at hg
  cases hg
  exact number_eq_some.2 ⟨r, f, hr, hf, hsame.localFd.symm.trans hfd⟩

/-- The numbers after a slot has been added. -/
theorem Adds.number {m : Int} {v : Option VnodeRef} (h : Adds p m v L L') (hwf : L.WF) :
    ∃ i, ∀ q j n, L'.number q j = some n →
      L.number q j = some n ∨ (q = p ∧ j = i ∧ n = m ∧ L.row p i = none) := by
  obtain ⟨i, hi⟩ := h.slot
  refine ⟨i, fun q j n hn => ?_⟩
  obtain ⟨r, f', hr, hf', hfd⟩ := number_eq_some.1 hn
  rcases hi q j r hr with hr | ⟨rfl, rfl, rfl⟩
  · exact .inl (h.number_old hwf hr hn)
  · right
    obtain ⟨g, hg, hm, -⟩ := h.new
    rw [hf'] at hg
    cases hg
    refine ⟨rfl, rfl, hfd.symm.trans hm, ?_⟩
    cases hold : L.row q j with
    | none => rfl
    | some r' =>
        obtain ⟨f, hf, -⟩ := hwf.slots q j r' hold
        rw [h.keep q j r' hold] at hr
        cases hr
        exact absurd (hwf.lt_nextFile hf) (lt_irrefl _)

theorem Unique.adds {m : Int} {v : Option VnodeRef} (hu : L.Unique) (h : Adds p m v L L')
    (hwf : L.WF) (hun : (∃ i, L.row p i = none) → L.Unused p m) : L'.Unique := by
  obtain ⟨i, hi⟩ := h.number hwf
  intro q j k n hj hk
  rcases hi q j n hj with hj | ⟨rfl, rfl, rfl, hnone⟩
  · rcases hi q k n hk with hk | ⟨rfl, rfl, rfl, hnone⟩
    · exact hu q j k n hj hk
    · exact absurd hj ((hun ⟨k, hnone⟩).number_ne j)
  · rcases hi q k n hk with hk | ⟨-, rfl, -, -⟩
    · exact absurd hk ((hun ⟨j, hnone⟩).number_ne k)
    · rfl

/-- The number of a standard file is its place. -/
theorem WF.number_std (h : L.WF) {i : Fin openMax} {r : FileRef} {f : File}
    (hr : L.stdRow i = some r) (hf : L.heap r = some f) : i.val < 3 ∧ f.localFd = i.val := by
  obtain ⟨hi, rfl⟩ := stdRow_eq_some h hr
  exact ⟨hi, (h.std_status hi hf).localFd⟩

theorem Unique.addRow (hu : L.Unique) (hwf : L.WF) : L.addRow.Unique := by
  intro q i j n hi hj
  obtain ⟨r, f, hr, hf, hfd⟩ := number_eq_some.1 hi
  obtain ⟨r', f', hr', hf', hfd'⟩ := number_eq_some.1 hj
  by_cases hq : q = L.nextProc
  · subst hq
    obtain ⟨-, h₁⟩ := hwf.number_std (i := i) (by simpa [Ledger.addRow] using hr) hf
    obtain ⟨-, h₂⟩ := hwf.number_std (i := j) (by simpa [Ledger.addRow] using hr') hf'
    apply Fin.ext
    omega
  · have h₁ : L.row q i = some r := by simpa [Ledger.addRow, hq] using hr
    have h₂ : L.row q j = some r' := by simpa [Ledger.addRow, hq] using hr'
    exact hu q i j n (number_eq_some.2 ⟨r, f, h₁, hf, hfd⟩)
      (number_eq_some.2 ⟨r', f', h₂, hf', hfd'⟩)

/-- A standard number is in use only where its own slot is: the copy of a table keeps the standard
file in a slot that is empty in the original. -/
def StdInPlace (L : Ledger) (p : ProcRef) : Prop :=
  ∀ k : Fin openMax, k.val < 3 → L.row p k = none → L.Unused p k.val

/-- What a new process inherits: its parent's slots, and standard files where these are empty. -/
theorem Unique.shares (hu : L.Unique) (hwf : L.WF)
    (hstd : L.StdInPlace p) (h : Shares p L.nextProc (L.addRow.load L.nextProc) L')
    (hrow : ∀ i, L'.row L.nextProc i = (L.row p i).or (L.stdRow i)) : L'.Unique := by
  -- a slot of the new process has its parent's number, or it is a standard one
  have key : ∀ i n, L'.number L.nextProc i = some n → L.number p i = some n ∨
      (L.row p i = none ∧ i.val < 3 ∧ n = i.val) := by
    intro i n hn
    obtain ⟨r, f', hr, hf', hfd⟩ := number_eq_some.1 hn
    obtain ⟨f, hf, hsame⟩ := h.fills.heap r f' hf'
    have hf₀ : L.heap r = some f := hf
    rw [hrow i] at hr
    cases hpi : L.row p i with
    | some r' =>
        rw [hpi] at hr
        cases hr
        exact .inl (number_eq_some.2 ⟨r, f, hpi, hf₀, hsame.localFd.symm.trans hfd⟩)
    | none =>
        rw [hpi, Option.none_or] at hr
        obtain ⟨hi, hnum⟩ := hwf.number_std hr hf₀
        exact .inr ⟨rfl, hi, by rw [← hfd, hsame.localFd, hnum]⟩
  intro q i j n hi hj
  by_cases hq : q = L.nextProc
  · subst hq
    rcases key i n hi with hi | ⟨hnone, h3, rfl⟩
    · rcases key j n hj with hj | ⟨hnone', h3', rfl⟩
      · exact hu p i j n hi hj
      · exact absurd hi ((hstd j h3' hnone').number_ne i)
    · rcases key j _ hj with hj | ⟨-, -, hji⟩
      · exact absurd hj ((hstd i h3 hnone).number_ne j)
      · apply Fin.ext
        omega
  · have hsub : ∀ k, L'.number q k = some n → L.number q k = some n := by
      intro k hk
      obtain ⟨r, f', hr, hf', hfd⟩ := number_eq_some.1 hk
      obtain ⟨f, hf, hsame⟩ := h.fills.heap r f' hf'
      rw [h.fills.other q hq] at hr
      refine number_eq_some.2 ⟨r, f, ?_, hf, hsame.localFd.symm.trans hfd⟩
      simpa [Ledger.load, Ledger.addRow, hq] using hr
    exact hu q i j n (hsub i hi) (hsub j hj)

/-! ## The slots with one number

Two questions about an event and a number of a process: whether a slot gets the number
(`NoneNew` says no), and whether the slots that have it stay (`Stay`).
-/

/-- No slot of `p` gets the number `fd`. -/
def NoneNew (p : ProcRef) (fd : Int) (L L' : Ledger) : Prop :=
  ∀ i r, L'.row p i = some r → L'.number p i = some fd →
    L.row p i = some r ∧ L.number p i = some fd

/-- The slots of `p` with the number `fd` stay, and so do their files. -/
def Stay (p : ProcRef) (fd : Int) (L L' : Ledger) : Prop :=
  ∀ i r f, L.row p i = some r → L.heap r = some f → f.localFd = fd →
    L'.row p i = some r ∧ ∃ f', L'.heap r = some f' ∧ SameFile f f'

section Events

variable {L'' : Ledger} {n : Int}

theorem NoneNew.trans (h : NoneNew p fd L L') (h' : NoneNew p fd L' L'') : NoneNew p fd L L'' := by
  intro i r hr hn
  obtain ⟨hr', hn'⟩ := h' i r hr hn
  exact h i r hr' hn'

theorem Stay.trans (h : Stay p fd L L') (h' : Stay p fd L' L'') : Stay p fd L L'' := by
  intro i r f hr hf hfd
  obtain ⟨hr', f', hf', hsame⟩ := h i r f hr hf hfd
  obtain ⟨hr'', f'', hf'', hsame'⟩ := h' i r f' hr' hf' (hsame.localFd.trans hfd)
  exact ⟨hr'', f'', hf'', hsame.trans hsame'⟩

/-- An event that leaves the table of `p` alone and frees none of its files. -/
theorem Stay.of_row (hrow : L'.row p = L.row p)
    (hheap : ∀ r f', L'.heap r = some f' → ∃ f, L.heap r = some f ∧ SameFile f f') (hwf : L'.WF) :
    Stay p fd L L' := by
  intro i r f hr hf _
  rw [← hrow] at hr
  obtain ⟨f', hf', -⟩ := hwf.slots p i r hr
  obtain ⟨g, hg, hsame⟩ := hheap r f' hf'
  rw [hf] at hg
  cases hg
  exact ⟨hr, f', hf', hsame⟩

theorem NoneNew.of_row (hrow : L'.row p = L.row p)
    (hheap : ∀ r f', L'.heap r = some f' → ∃ f, L.heap r = some f ∧ SameFile f f') :
    NoneNew p fd L L' := by
  intro i r hr hn
  obtain ⟨r', f', hr', hf', hfd⟩ := number_eq_some.1 hn
  obtain ⟨f, hf, hsame⟩ := hheap r' f' hf'
  rw [hrow] at hr hr'
  exact ⟨hr, number_eq_some.2 ⟨r', f, hr', hf, hsame.localFd.symm.trans hfd⟩⟩

theorem Shrinks.noneNew (h : Shrinks q L L') : NoneNew p fd L L' :=
  fun i r hr hn => ⟨h.row p i r hr, h.number hn⟩

/-- Closing a number of a process leaves its other numbers, and those of other processes, alone. -/
theorem Closes.stay (h : Closes q n L L') (hne : q = p → n ≠ fd) : Stay p fd L L' := by
  refine h.keeps (I := Stay p fd L) (fun M M' hwf hsole hM hcl => hM.trans ?_)
    fun i r f hr hf _ => ⟨hr, f, hf, rfl⟩
  intro i r f hr hf hfd
  have hr' : M'.row p i = some r := by
    apply hcl.row_keep hr hf
    intro he
    rw [hfd]
    exact (hne he.symm).symm
  obtain ⟨f', hf', -⟩ := (hcl.wf hwf hsole).slots p i r hr'
  obtain ⟨g, hg, hsame⟩ := hcl.shrinks.heap r f' hf'
  rw [hf] at hg
  cases hg
  exact ⟨hr', f', hf', hsame⟩

theorem noneNew_dropRow (q : ProcRef) : NoneNew p fd L (L.dropRow q) := by
  intro i r hr hn
  by_cases hp : p = q
  · simp [dropRow, hp] at hr
  · exact ⟨by simpa [dropRow, hp] using hr, by simpa [Ledger.number, dropRow, hp] using hn⟩

theorem Gone.noneNew (h : Gone q L L') : NoneNew p fd L L' := by
  obtain ⟨L₁, hl, -, rfl⟩ := h.ends
  exact hl.shrinks.noneNew.trans (noneNew_dropRow q)

theorem Gone.stay (h : Gone q L L') (hne : p ≠ q) : Stay p fd L L' := by
  have hwf := h.wf
  obtain ⟨L₁, hl, -, rfl⟩ := h.ends
  refine Stay.of_row ?_ hl.shrinks.heap hwf
  have hrow : (L₁.dropRow q).row p = L₁.row p := by simp [dropRow, hne]
  rw [hrow]
  exact hl.shrinks.other p hne

theorem Gone.space_other (h : Gone q L L') (hne : p ≠ q) : L'.space p = L.space p := by
  obtain ⟨L₁, hl, -, rfl⟩ := h.ends
  rw [← hl.shrinks.space]
  simp [dropRow, hne]

theorem Adds.noneNew {x : Option VnodeRef} (h : Adds q n x L L') (hwf : L.WF)
    (hne : q = p → n ≠ fd) : NoneNew p fd L L' := by
  intro i r hr hn
  obtain ⟨k, hk⟩ := h.slot
  obtain ⟨r', f', hr', hf', hfd⟩ := number_eq_some.1 hn
  rw [hr] at hr'
  cases hr'
  rcases hk p i r hr with hold | ⟨rfl, -, rfl⟩
  · exact ⟨hold, h.number_old hwf hold hn⟩
  · obtain ⟨g, hg, hm, -⟩ := h.new
    rw [hf'] at hg
    cases hg
    exact absurd (hm.symm.trans hfd) (hne rfl)

theorem Adds.stay {x : Option VnodeRef} (h : Adds q n x L L') : Stay p fd L L' :=
  fun i r f hr hf _ => ⟨h.keep p i r hr, h.old r f hf⟩

theorem noneNew_addRow (hlt : p < L.nextProc) : NoneNew p fd L L.addRow := by
  have hne : p ≠ L.nextProc := ne_of_lt hlt
  exact NoneNew.of_row (by simp [Ledger.addRow, hne]) fun r f' hf' => ⟨f', hf', rfl⟩

theorem stay_addRow (hlt : p < L.nextProc) : Stay p fd L L.addRow := by
  have hne : p ≠ L.nextProc := ne_of_lt hlt
  exact fun i r f hr hf _ => ⟨by simpa [Ledger.addRow, hne] using hr, f, hf, rfl⟩

theorem space_addRow (hlt : p < L.nextProc) : L.addRow.space p = L.space p := by
  simp [Ledger.addRow, ne_of_lt hlt]

theorem stay_load (q : ProcRef) : Stay p fd L (L.load q) :=
  fun _ _ f hr hf _ => ⟨hr, f, hf, rfl⟩

theorem noneNew_load (q : ProcRef) : NoneNew p fd L (L.load q) :=
  fun _ _ hr hn => ⟨hr, hn⟩

theorem space_load {q : ProcRef} (h : L.space p = some true) : (L.load q).space p = some true := by
  by_cases hq : p = q
  · simp [Ledger.load, hq]
  · simpa [Ledger.load, hq] using h

theorem Shares.noneNew {q' : ProcRef} (h : Shares q' q L L') (hne : p ≠ q) : NoneNew p fd L L' :=
  NoneNew.of_row (h.fills.other p hne) h.fills.heap

theorem Shares.stay {q' : ProcRef} (h : Shares q' q L L') (hne : p ≠ q) : Stay p fd L L' :=
  Stay.of_row (h.fills.other p hne) h.fills.heap h.wf

theorem Unused.of_noneNew (h : L.Unused p fd) (hnew : NoneNew p fd L L') : L'.Unused p fd := by
  intro i r f hr hf hfd
  obtain ⟨-, hn⟩ := hnew i r hr (number_eq_some.2 ⟨r, f, hr, hf, hfd⟩)
  exact h.number_ne i hn

/-- A number whose slots stay, and which no slot gets, denotes what it denoted. -/
theorem lookup_of_stay (hstay : Stay p fd L L') (hnew : NoneNew p fd L L') :
    L'.lookup p fd = L.lookup p fd := by
  refine lookup_congr (fun i r f hr hf hfd => ?_) fun i r f' hr hf' hfd => ?_
  · obtain ⟨hr', f', hf', hsame⟩ := hstay i r f hr hf hfd
    exact ⟨hr', f', hf', hsame.localFd.trans hfd⟩
  · obtain ⟨hr', hn⟩ := hnew i r hr (number_eq_some.2 ⟨r, f', hr, hf', hfd⟩)
    obtain ⟨r', f, hr'', hf, hfd'⟩ := number_eq_some.1 hn
    rw [hr'] at hr''
    cases hr''
    exact ⟨hr', f, hf, hfd'⟩

end Events

/-! ## What a number denotes -/

/-- The number `fd` of the process `p` denotes the file `r` on the vnode `v`, and no other. -/
structure Holds (L : Ledger) (p : ProcRef) (fd : Int) (r : FileRef) (v : VnodeRef) : Prop where
  slot : ∃ i, L.row p i = some r
  only : ∀ i r', L.row p i = some r' → L.number p i = some fd → r' = r
  file : ∃ f, L.heap r = some f ∧ f.localFd = fd ∧ f.fileVnode = some v
  space : L.space p = some true

variable {r : FileRef} {v : VnodeRef}

theorem Holds.lookup (h : L.Holds p fd r v) : L.lookup p fd = some r := by
  obtain ⟨f, hf, hfd, -⟩ := h.file
  obtain ⟨i, hi⟩ := h.slot
  cases hl : L.lookup p fd with
  | none => exact absurd hfd (lookup_eq_none hl hi hf)
  | some r' =>
      obtain ⟨j, g, hj, hg, hgd⟩ := lookup_eq_some hl
      exact congrArg some (h.only j r' hj (number_eq_some.2 ⟨r', g, hj, hg, hgd⟩))

theorem Holds.of_stay (h : L.Holds p fd r v) (hstay : Stay p fd L L') (hnew : NoneNew p fd L L')
    (hspace : L'.space p = some true) : L'.Holds p fd r v := by
  obtain ⟨f, hf, hfd, hv⟩ := h.file
  obtain ⟨i, hi⟩ := h.slot
  obtain ⟨hi', f', hf', hsame⟩ := hstay i r f hi hf hfd
  refine ⟨⟨i, hi'⟩, fun j r' hr' hn => ?_,
    ⟨f', hf', hsame.localFd.trans hfd, hsame.fileVnode.trans hv⟩, hspace⟩
  obtain ⟨h₁, h₂⟩ := hnew j r' hr' hn
  exact h.only j r' h₁ h₂

/-- The file just opened is what its number denotes, if the number was not in use and the table had
room. -/
theorem Open.holds {f : File} (ho : Open p f L L') (hwf : L.WF) (hun : L.Unused p L.nextFd)
    (hroom : ∃ i, L.row p i = none) (hv : f.fileVnode = some v) (hspace : L.space p = some true) :
    L'.Holds p L.nextFd L.nextFile v := by
  have ha := ho.adds hwf
  obtain ⟨f', hf', hm, hv'⟩ := ha.new
  obtain ⟨k, hk⟩ := ha.slot
  refine ⟨?_, fun i r' hr' hn => ?_, ⟨f', hf', hm, hv'.trans hv⟩, by rw [ha.space]; exact hspace⟩
  · cases ho with
    | opened _ _ hpl =>
        cases hpl with
        | @slot i _ => exact ⟨i, by rw [setSlot_row, if_pos ⟨rfl, rfl⟩]⟩
        | full hfull =>
            obtain ⟨i, hi⟩ := hroom
            exact absurd hi (hfull i)
  · rcases hk p i r' hr' with hr | ⟨-, -, rfl⟩
    · exact absurd (ha.number_old hwf hr hn) (hun.number_ne i)
    · rfl

end Os161.Vfs.Ledger

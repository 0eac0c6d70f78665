import Os161.State

set_option autoImplicit false

/-!
# The ledger of open files

What the file layer is for, without locks, paths or seek positions: which `struct file` every slot
of every process refers to, which files are on the global table, and the counters that go with
them. `Ledger.WF` is the invariant that keeps every reference valid. It says which kinds of files
a slot may refer to (one of the three standard files, a file of the global table, a duplicate) and
that no file has more slots than its reference count allows; a duplicate has one to spare.

The operations here are the small moves that the kernel functions are made of (a slot is cleared,
a count is set, a file is freed). `Os161.Vfs.Refine` shows which moves a system call makes.
-/

namespace Os161.Vfs

open Os161.Lib.Slots

/-- The state of the file layer. -/
structure Ledger where
  heap : FileRef → Option File
  nextFile : FileRef
  nextFd : Int
  openFiles : Table openMax FileRef
  size : Int
  /-- The file table of every process; a process that does not exist has empty slots only. -/
  row : ProcRef → Table openMax FileRef
  /-- Whether the process, if it exists, has an address space. -/
  space : ProcRef → Option Bool
  nextProc : ProcRef
  vnFile : VnodeRef → Int

namespace Ledger

variable {L : Ledger}

/-! ## Totals over all slots -/

/-- The total weight of all slots of all processes. -/
def total (w : FileRef → Nat) (L : Ledger) : Nat :=
  ∑ p ∈ Finset.range L.nextProc, weigh w (L.row p)

/-- The number of slots that refer to `r`. -/
def refs (L : Ledger) (r : FileRef) : Nat := total (fun r' => if r' = r then 1 else 0) L

/-- The vnode of a file. -/
def vnodeOf (L : Ledger) (r : FileRef) : Option VnodeRef := (L.heap r).bind File.fileVnode

/-- The number of slots that refer to a file on the vnode `v`. -/
def onVnode (L : Ledger) (v : VnodeRef) : Nat :=
  total (fun r => if L.vnodeOf r = some v then 1 else 0) L

/-- Only processes that have been created have files. -/
def Live (L : Ledger) : Prop := ∀ p i r, L.row p i = some r → p < L.nextProc

theorem total_congr {w w' : FileRef → Nat} (h : ∀ p i r, L.row p i = some r → w r = w' r) :
    total w L = total w' L :=
  Finset.sum_congr rfl fun p _ => weigh_congr fun i r hr => h p i r hr

theorem total_eq_zero {w : FileRef → Nat} (h : ∀ p i r, L.row p i = some r → w r = 0) :
    total w L = 0 :=
  Finset.sum_eq_zero fun p _ => weigh_eq_zero fun i r hr => h p i r hr

theorem le_total {w : FileRef → Nat} (hlive : L.Live) {p : ProcRef} {i : Fin openMax}
    {r : FileRef} (h : L.row p i = some r) : w r ≤ total w L := by
  have hp : p ∈ Finset.range L.nextProc := Finset.mem_range.2 (hlive p i r h)
  calc w r ≤ weigh w (L.row p) := le_weigh h
    _ ≤ total w L := Finset.single_le_sum (f := fun p => weigh w (L.row p))
        (fun _ _ => Nat.zero_le _) hp

theorem refs_pos (hlive : L.Live) {p : ProcRef} {i : Fin openMax} {r : FileRef}
    (h : L.row p i = some r) : 1 ≤ L.refs r := by
  have := le_total (w := fun r' => if r' = r then 1 else 0) hlive h
  simpa [refs] using this

theorem exists_slot_of_refs_pos {r : FileRef} (h : 1 ≤ L.refs r) :
    ∃ p i, L.row p i = some r := by
  by_contra hc
  have hz : L.refs r = 0 := by
    apply total_eq_zero
    intro p i r' hr'
    by_cases he : r' = r
    · subst he
      exact absurd ⟨p, i, hr'⟩ hc
    · simp [he]
  omega

/-! ## Moves -/

/-- Replaces the table of a process. -/
def setRow (L : Ledger) (p : ProcRef) (t : Table openMax FileRef) : Ledger :=
  { L with row := Function.update L.row p t }

/-- Writes one slot. -/
def setSlot (L : Ledger) (p : ProcRef) (i : Fin openMax) (x : Option FileRef) : Ledger :=
  L.setRow p (Function.update (L.row p) i x)

/-- Replaces what a file address holds. -/
def setFile (L : Ledger) (r : FileRef) (x : Option File) : Ledger :=
  { L with heap := Function.update L.heap r x }

/-- Sets the reference count of the file `f` at `r`. -/
def setCount (L : Ledger) (r : FileRef) (f : File) (n : Int) : Ledger :=
  L.setFile r (some { f with refcount := n })

/-- Adds `d` to the references held on the vnode, if there is one. -/
def addVnode (L : Ledger) (x : Option VnodeRef) (d : Int) : Ledger :=
  { L with vnFile := fun v => if x = some v then L.vnFile v + d else L.vnFile v }

/-- A new `struct file`. -/
def alloc (L : Ledger) (f : File) : Ledger :=
  { L with heap := Function.update L.heap L.nextFile (some f), nextFile := L.nextFile + 1 }

/-- Puts a file on the global table and uses up the next number. -/
def register (L : Ledger) (j : Fin openMax) (r : FileRef) : Ledger :=
  { L with
    nextFd := L.nextFd + 1
    openFiles := Function.update L.openFiles j (some r)
    size := L.size + 1 }

/-- Takes a file off the global table. -/
def unregister (L : Ledger) (j : Fin openMax) : Ledger :=
  { L with openFiles := Function.update L.openFiles j none, size := L.size - 1 }

/-- The table a new process starts with. -/
def stdRow (L : Ledger) : Table openMax FileRef :=
  fun i => if i.val < 3 then L.openFiles i else none

/-- A new process. -/
def addRow (L : Ledger) : Ledger :=
  { L with
    row := Function.update L.row L.nextProc L.stdRow
    space := Function.update L.space L.nextProc (some false)
    nextProc := L.nextProc + 1 }

/-- A process gets its address space. -/
def load (L : Ledger) (p : ProcRef) : Ledger :=
  { L with space := Function.update L.space p (some true) }

/-- A process is destroyed. -/
def dropRow (L : Ledger) (p : ProcRef) : Ledger :=
  { L with row := Function.update L.row p fun _ => none
           space := Function.update L.space p none }

theorem total_setRow (w : FileRef → Nat) {p : ProcRef} (hp : p < L.nextProc)
    (t : Table openMax FileRef) :
    total w (L.setRow p t) + weigh w (L.row p) = total w L + weigh w t := by
  have h := sum_change (S := Finset.range L.nextProc) (g := fun q => weigh w (L.row q))
    (k := fun q => weigh w (Function.update L.row p t q)) (Finset.mem_range.2 hp)
    (fun q _ hq => by simp [Function.update_of_ne hq])
  simpa [total, setRow] using h

theorem total_setSlot (w : FileRef → Nat) {p : ProcRef} (hp : p < L.nextProc) (i : Fin openMax)
    (x : Option FileRef) :
    total w (L.setSlot p i x) + slotWeight w (L.row p i) = total w L + slotWeight w x := by
  have h₁ := total_setRow w hp (Function.update (L.row p) i x)
  have h₂ := weigh_update w (L.row p) i x
  unfold setSlot
  omega

theorem setSlot_row (L : Ledger) (p : ProcRef) (i : Fin openMax) (x : Option FileRef)
    (q : ProcRef) (j : Fin openMax) :
    (L.setSlot p i x).row q j = if q = p ∧ j = i then x else L.row q j := by
  by_cases hq : q = p
  · subst hq
    by_cases hj : j = i
    · subst hj
      simp [setSlot, setRow]
    · simp [setSlot, setRow, hj]
  · simp [setSlot, setRow, hq]

/-- Filling a slot whose file the weight does not count, or clearing it. -/
theorem refs_setSlot {p : ProcRef} (hp : p < L.nextProc) (i : Fin openMax) (x : Option FileRef)
    (r : FileRef) :
    (L.setSlot p i x).refs r + (if L.row p i = some r then 1 else 0) =
      L.refs r + (if x = some r then 1 else 0) := by
  have h := total_setSlot (fun r' => if r' = r then 1 else 0) hp i x
  have e : ∀ y : Option FileRef,
      slotWeight (fun r' => if r' = r then 1 else 0) y = if y = some r then 1 else 0 := by
    intro y
    cases y <;> simp
  rw [e, e] at h
  exact h

theorem refs_clearSlot_le {p : ProcRef} (hp : p < L.nextProc) (i : Fin openMax) (r : FileRef) :
    (L.setSlot p i none).refs r ≤ L.refs r := by
  have h := refs_setSlot hp i none r
  simp only [reduceCtorEq, if_false] at h
  omega

theorem refs_clearSlot {p : ProcRef} {i : Fin openMax} {r : FileRef} (hp : p < L.nextProc)
    (h : L.row p i = some r) : (L.setSlot p i none).refs r + 1 = L.refs r := by
  have := refs_setSlot hp i none r
  simpa [h] using this

/-! ## The invariant -/

/-- What never changes of the standard file `k`. -/
structure StdFile (k : Nat) (f : File) : Prop where
  globalFd : f.globalFd = -1
  fileVnode : f.fileVnode = none
  isDupe : f.isDupe = false
  stdFileStatus : f.stdFileStatus = k
  localFd : f.localFd = k

/-- What never changes of a file on the global table; its number was drawn before `nextFd`. -/
structure OpenedFile (nextFd : Int) (f : File) : Prop where
  isDupe : f.isDupe = false
  stdFileStatus : f.stdFileStatus = -1
  fileVnode : f.fileVnode ≠ none
  three : 3 ≤ f.globalFd
  lt : f.globalFd < nextFd

/-- A duplicate has a vnode unless it duplicates a standard file. -/
structure DupFile (f : File) : Prop where
  isDupe : f.isDupe = true
  fileVnode : f.fileVnode = none ↔ f.stdFileStatus ≠ -1

/-- The file is on the global table behind the standard files. -/
def OnTable (openFiles : Table openMax FileRef) (r : FileRef) : Prop :=
  ∃ i : Fin openMax, 3 ≤ i.val ∧ openFiles i = some r

/-- What a slot may refer to. -/
inductive Kind (openFiles : Table openMax FileRef) (r : FileRef) (f : File) : Prop where
  | std : r < 3 → Kind openFiles r f
  | opened : OnTable openFiles r → Kind openFiles r f
  | dup : 3 ≤ r → DupFile f → Kind openFiles r f

/-- One for a duplicate: the reference it keeps of the file it was made from. -/
def spare (f : File) : Int := if f.isDupe then 1 else 0

/-- The invariant of the file layer. -/
structure WF (L : Ledger) : Prop where
  fresh : ∀ r, L.nextFile ≤ r → L.heap r = none
  nextFd : 3 ≤ L.nextFd
  std : ∀ k, k < 3 → ∃ f, L.heap k = some f ∧ StdFile k f
  openStd : ∀ i : Fin openMax, i.val < 3 → L.openFiles i = some i.val
  openReg : ∀ (i : Fin openMax) r, 3 ≤ i.val → L.openFiles i = some r →
    3 ≤ r ∧ ∃ f, L.heap r = some f ∧ OpenedFile L.nextFd f
  openInj : ∀ (i j : Fin openMax) r r' f f', 3 ≤ i.val → 3 ≤ j.val → L.openFiles i = some r →
    L.openFiles j = some r' → L.heap r = some f → L.heap r' = some f' →
    f.globalFd = f'.globalFd → i = j
  size : L.size = used L.openFiles
  live : L.Live
  slots : ∀ p i r, L.row p i = some r → ∃ f, L.heap r = some f ∧ Kind L.openFiles r f
  known : ∀ p b, L.space p = some b → p < L.nextProc
  bareStd : ∀ p i r, L.space p = some false → L.row p i = some r → r < 3
  counts : ∀ r f, L.heap r = some f → f.stdFileStatus = -1 → L.refs r + spare f ≤ f.refcount

theorem WF.three (h : L.WF) : 3 ≤ L.nextFile := by
  by_contra hc
  obtain ⟨f, hf, -⟩ := h.std 2 (by decide)
  rw [h.fresh 2 (Nat.le_of_lt_succ (not_le.1 hc))] at hf
  cases hf

theorem WF.lt_nextFile (h : L.WF) {r : FileRef} {f : File} (hf : L.heap r = some f) :
    r < L.nextFile := by
  by_contra hc
  rw [h.fresh r (not_lt.1 hc)] at hf
  cases hf

theorem WF.refs_fresh (h : L.WF) : L.refs L.nextFile = 0 := by
  apply total_eq_zero
  intro p i r hr
  have hne : r ≠ L.nextFile := by
    rintro rfl
    obtain ⟨f, hf, -⟩ := h.slots p i _ hr
    exact lt_irrefl _ (h.lt_nextFile hf)
  simp [hne]

/-- Moves that only touch the tables of the processes. -/
theorem WF.of_rows (h : L.WF) {row : ProcRef → Table openMax FileRef} {space : ProcRef → Option Bool}
    {nextProc : ProcRef}
    (hlive : ({ L with row := row, space := space, nextProc := nextProc } : Ledger).Live)
    (hslots : ∀ p i r, row p i = some r → ∃ f, L.heap r = some f ∧ Kind L.openFiles r f)
    (hknown : ∀ p b, space p = some b → p < nextProc)
    (hbare : ∀ p i r, space p = some false → row p i = some r → r < 3)
    (hcounts : ∀ r f, L.heap r = some f → f.stdFileStatus = -1 →
      ({ L with row := row, space := space, nextProc := nextProc } : Ledger).refs r + spare f ≤
        f.refcount) :
    ({ L with row := row, space := space, nextProc := nextProc } : Ledger).WF :=
  { fresh := h.fresh, nextFd := h.nextFd, std := h.std, openStd := h.openStd
    openReg := h.openReg, openInj := h.openInj, size := h.size
    live := hlive, slots := hslots, known := hknown, bareStd := hbare, counts := hcounts }

/-- Clearing a slot keeps the invariant. -/
theorem WF.clearSlot (h : L.WF) {p : ProcRef} (hp : p < L.nextProc) (i : Fin openMax) :
    (L.setSlot p i none).WF := by
  have hsub : ∀ q j r, (L.setSlot p i none).row q j = some r → L.row q j = some r := by
    intro q j r hr
    rw [setSlot_row] at hr
    split_ifs at hr
    exact hr
  refine h.of_rows ?_ ?_ h.known ?_ ?_
  · exact fun q j r hr => h.live q j r (hsub q j r hr)
  · exact fun q j r hr => h.slots q j r (hsub q j r hr)
  · exact fun q j r hb hr => h.bareStd q j r hb (hsub q j r hr)
  · intro r f hf hs
    have h₁ := h.counts r f hf hs
    have h₂ := refs_clearSlot_le hp i r
    unfold setSlot setRow at h₂
    omega

/-- Filling a slot keeps the invariant when the count of the file allows one more slot. -/
theorem WF.fillSlot (h : L.WF) {p : ProcRef} (hp : p < L.nextProc) (i : Fin openMax)
    {r : FileRef} {f : File} (hf : L.heap r = some f) (hk : Kind L.openFiles r f)
    (hbare : L.space p ≠ some false)
    (hcount : f.stdFileStatus = -1 → L.refs r + spare f < f.refcount) :
    (L.setSlot p i (some r)).WF := by
  have hsub : ∀ q j r', (L.setSlot p i (some r)).row q j = some r' →
      (q = p ∧ r' = r) ∨ L.row q j = some r' := by
    intro q j r' hr
    rw [setSlot_row] at hr
    split_ifs at hr with hc
    · cases hr
      exact .inl ⟨hc.1, rfl⟩
    · exact .inr hr
  refine h.of_rows ?_ ?_ h.known ?_ ?_
  · intro q j r' hr
    rcases hsub q j r' hr with ⟨rfl, -⟩ | hr
    · exact hp
    · exact h.live q j r' hr
  · intro q j r' hr
    rcases hsub q j r' hr with ⟨-, rfl⟩ | hr
    · exact ⟨f, hf, hk⟩
    · exact h.slots q j r' hr
  · intro q j r' hb hr
    rcases hsub q j r' hr with ⟨rfl, -⟩ | hr
    · exact absurd hb hbare
    · exact h.bareStd q j r' hb hr
  · intro r' f' hf' hs
    have h₁ := h.counts r' f' hf' hs
    have h₂ := refs_setSlot hp i (some r) r'
    unfold setSlot setRow at h₂
    by_cases he : r' = r
    · subst he
      rw [hf] at hf'
      cases hf'
      have h₃ := hcount hs
      simp only [if_true] at h₂
      omega
    · have hne : some r ≠ some r' := fun e => he (Option.some.inj e).symm
      rw [if_neg hne] at h₂
      omega

theorem total_addRow (w : FileRef → Nat) (L : Ledger) :
    total w L.addRow = total w L + weigh w L.stdRow := by
  have hold : ∀ p ∈ Finset.range L.nextProc, weigh w (L.addRow.row p) = weigh w (L.row p) := by
    intro p hp
    have hne : p ≠ L.nextProc := ne_of_lt (Finset.mem_range.1 hp)
    simp [addRow, hne]
  have hnew : L.addRow.row L.nextProc = L.stdRow := by simp [addRow]
  calc total w L.addRow
      = ∑ p ∈ Finset.range (L.nextProc + 1), weigh w (L.addRow.row p) := rfl
    _ = total w L + weigh w L.stdRow := by
        rw [Finset.sum_range_succ, Finset.sum_congr rfl hold, hnew]
        rfl

theorem total_dropRow (w : FileRef → Nat) {p : ProcRef} (hp : p < L.nextProc) :
    total w (L.dropRow p) + weigh w (L.row p) = total w L := by
  have h := total_setRow w hp fun _ => none
  have hz : weigh w (fun _ => none : Table openMax FileRef) = 0 :=
    weigh_eq_zero fun i r hr => by cases hr
  rw [hz] at h
  exact h

theorem stdRow_eq_some (h : L.WF) {i : Fin openMax} {r : FileRef} (hr : L.stdRow i = some r) :
    i.val < 3 ∧ r = i.val := by
  unfold stdRow at hr
  split_ifs at hr with hi
  rw [h.openStd i hi] at hr
  cases hr
  exact ⟨hi, rfl⟩

/-- A weight that does not count the standard files does not see a new process. -/
theorem WF.total_addRow_of_std (h : L.WF) {w : FileRef → Nat} (hw : ∀ k, k < 3 → w k = 0) :
    total w L.addRow = total w L := by
  have hz : weigh w L.stdRow = 0 := by
    apply weigh_eq_zero
    intro i r hr
    obtain ⟨hi, rfl⟩ := stdRow_eq_some h hr
    exact hw _ hi
  rw [total_addRow, hz, Nat.add_zero]

theorem WF.std_status (h : L.WF) {k : FileRef} {f : File} (hk : k < 3)
    (hf : L.heap k = some f) : StdFile k f := by
  obtain ⟨g, hg, hstd⟩ := h.std k hk
  rw [hf] at hg
  cases hg
  exact hstd

theorem StdFile.stdFileStatus_ne {k : Nat} {f : File} (h : StdFile k f) :
    f.stdFileStatus ≠ -1 := by
  rw [h.stdFileStatus]
  omega

/-- A new process keeps the invariant: it only refers to standard files. -/
theorem WF.addRow (h : L.WF) : L.addRow.WF := by
  have hsub : ∀ q j r, L.addRow.row q j = some r →
      (q = L.nextProc ∧ j.val < 3 ∧ r = j.val) ∨ L.row q j = some r := by
    intro q j r hr
    by_cases hq : q = L.nextProc
    · subst hq
      have hr' : L.stdRow j = some r := by simpa [Ledger.addRow] using hr
      exact .inl ⟨rfl, stdRow_eq_some h hr'⟩
    · exact .inr (by simpa [Ledger.addRow, hq] using hr)
  refine h.of_rows ?_ ?_ ?_ ?_ ?_
  · intro q j r hr
    rcases hsub q j r hr with ⟨rfl, -⟩ | hr
    · exact Nat.lt_succ_self _
    · exact Nat.lt_succ_of_lt (h.live q j r hr)
  · intro q j r hr
    rcases hsub q j r hr with ⟨-, hj, rfl⟩ | hr
    · obtain ⟨f, hf, -⟩ := h.std j.val hj
      exact ⟨f, hf, .std hj⟩
    · exact h.slots q j r hr
  · intro q b hb
    by_cases hq : q = L.nextProc
    · subst hq
      exact Nat.lt_succ_self _
    · exact Nat.lt_succ_of_lt (h.known q b (by simpa [hq] using hb))
  · intro q j r hb hr
    rcases hsub q j r hr with ⟨-, hj, rfl⟩ | hr'
    · exact hj
    · by_cases hq : q = L.nextProc
      · subst hq
        exact absurd (h.live _ _ _ hr') (lt_irrefl _)
      · exact h.bareStd q j r (by simpa [hq] using hb) hr'
  · intro r f hf hs
    have hr : ¬ r < 3 := fun h3 => (h.std_status h3 hf).stdFileStatus_ne hs
    have hsame : L.addRow.refs r = L.refs r := by
      apply h.total_addRow_of_std
      intro k hk
      have hne : k ≠ r := fun e => hr (e ▸ hk)
      simp [hne]
    have h₁ := h.counts r f hf hs
    unfold Ledger.addRow at hsame
    rw [hsame]
    exact h₁

/-- Destroying a process keeps the invariant, whatever its table still holds. -/
theorem WF.dropRow (h : L.WF) (p : ProcRef) : (L.dropRow p).WF := by
  have hsub : ∀ q j r, (L.dropRow p).row q j = some r → q ≠ p ∧ L.row q j = some r := by
    intro q j r hr
    by_cases hq : q = p
    · subst hq
      simp [Ledger.dropRow] at hr
    · exact ⟨hq, by simpa [Ledger.dropRow, hq] using hr⟩
  refine h.of_rows ?_ ?_ ?_ ?_ ?_
  · exact fun q j r hr => h.live q j r (hsub q j r hr).2
  · exact fun q j r hr => h.slots q j r (hsub q j r hr).2
  · intro q b hb
    by_cases hq : q = p
    · subst hq
      simp at hb
    · exact h.known q b (by simpa [hq] using hb)
  · intro q j r hb hr
    obtain ⟨hq, hr'⟩ := hsub q j r hr
    exact h.bareStd q j r (by simpa [hq] using hb) hr'
  · intro r f hf hs
    have h₁ := h.counts r f hf hs
    have hle : (L.dropRow p).refs r ≤ L.refs r := by
      by_cases hp : p < L.nextProc
      · have := total_dropRow (fun r' => if r' = r then 1 else 0) hp
        unfold refs
        omega
      · -- a process that was never created has nothing to drop
        unfold refs total
        refine le_of_eq (Finset.sum_congr rfl fun q hq => ?_)
        have hne : q ≠ p := fun e => hp (e ▸ Finset.mem_range.1 hq)
        simp [Ledger.dropRow, hne]
    unfold Ledger.dropRow at hle
    omega

/-- Loading a program keeps the invariant. -/
theorem WF.load (h : L.WF) {p : ProcRef} (hp : p < L.nextProc) : (L.load p).WF := by
  refine h.of_rows h.live h.slots ?_ ?_ h.counts
  · intro q b hb
    by_cases hq : q = p
    · subst hq
      exact hp
    · exact h.known q b (by simpa [hq] using hb)
  intro q i r hb hr
  by_cases hq : q = p
  · subst hq
    simp at hb
  · exact h.bareStd q i r (by simpa [hq] using hb) hr

/-! ### Files -/

theorem setFile_heap_ne {r r' : FileRef} (hne : r' ≠ r) (x : Option File) :
    (L.setFile r x).heap r' = L.heap r' := by
  simp [setFile, hne]

/-- Setting a count keeps the invariant when it covers the slots of the file. -/
theorem WF.setCount (h : L.WF) {r : FileRef} {f : File} {n : Int} (hf : L.heap r = some f)
    (hn : f.stdFileStatus = -1 → L.refs r + spare f ≤ n) : (L.setCount r f n).WF := by
  -- every file keeps all its fields but the count
  have hold : ∀ r' g, L.heap r' = some g →
      ∃ m, (L.setCount r f n).heap r' = some { g with refcount := m } := by
    intro r' g hg
    by_cases he : r' = r
    · subst he
      rw [hf] at hg
      cases hg
      exact ⟨n, by simp [Ledger.setCount, setFile]⟩
    · exact ⟨g.refcount, by simp [Ledger.setCount, setFile, he, hg]⟩
  have hnew : ∀ r' g, (L.setCount r f n).heap r' = some g →
      ∃ g', L.heap r' = some g' ∧ g = { g' with refcount := g.refcount } := by
    intro r' g hg
    by_cases he : r' = r
    · subst he
      simp only [Ledger.setCount, setFile, Function.update_self, Option.some.injEq] at hg
      subst hg
      exact ⟨f, hf, rfl⟩
    · exact ⟨g, by simpa [Ledger.setCount, setFile, he] using hg, rfl⟩
  refine
    { fresh := fun r' hr' => ?_, nextFd := h.nextFd, std := fun k hk => ?_
      openStd := h.openStd, openReg := fun i r' hi hr' => ?_
      openInj := fun i j r₁ r₂ f₁ f₂ hi hj h₁ h₂ hf₁ hf₂ he => ?_
      size := h.size, live := h.live, slots := fun p i r' hr' => ?_
      known := h.known, bareStd := h.bareStd, counts := fun r' g hg hs => ?_ }
  · have hne : r' ≠ r := by
      rintro rfl
      exact absurd (h.lt_nextFile hf) (not_lt.2 hr')
    simpa [Ledger.setCount, setFile, hne] using h.fresh r' hr'
  · obtain ⟨g, hg, hstd⟩ := h.std k hk
    obtain ⟨m, hm⟩ := hold k g hg
    exact ⟨_, hm, ⟨hstd.1, hstd.2, hstd.3, hstd.4, hstd.5⟩⟩
  · obtain ⟨h3, g, hg, hop⟩ := h.openReg i r' hi hr'
    obtain ⟨m, hm⟩ := hold r' g hg
    exact ⟨h3, _, hm, ⟨hop.1, hop.2, hop.3, hop.4, hop.5⟩⟩
  · obtain ⟨g₁, hg₁, e₁⟩ := hnew r₁ f₁ hf₁
    obtain ⟨g₂, hg₂, e₂⟩ := hnew r₂ f₂ hf₂
    rw [e₁, e₂] at he
    exact h.openInj i j r₁ r₂ g₁ g₂ hi hj h₁ h₂ hg₁ hg₂ he
  · obtain ⟨g, hg, hk⟩ := h.slots p i r' hr'
    obtain ⟨m, hm⟩ := hold r' g hg
    refine ⟨_, hm, ?_⟩
    cases hk with
    | std h3 => exact .std h3
    | opened ho => exact .opened ho
    | dup h3 hd => exact .dup h3 ⟨hd.1, hd.2⟩
  · by_cases he : r' = r
    · subst he
      simp only [Ledger.setCount, setFile, Function.update_self, Option.some.injEq] at hg
      subst hg
      exact hn hs
    · exact h.counts r' g (by simpa [Ledger.setCount, setFile, he] using hg) hs

/-- A new file that nothing refers to keeps the invariant. -/
theorem WF.alloc (h : L.WF) {f : File} (hn : f.stdFileStatus = -1 → spare f ≤ f.refcount) :
    (L.alloc f).WF := by
  have hold : ∀ r g, L.heap r = some g → (L.alloc f).heap r = some g := by
    intro r g hg
    have hne : r ≠ L.nextFile := ne_of_lt (h.lt_nextFile hg)
    simpa [Ledger.alloc, hne] using hg
  have hnew : ∀ r g, (L.alloc f).heap r = some g →
      (r = L.nextFile ∧ g = f) ∨ (r < L.nextFile ∧ L.heap r = some g) := by
    intro r g hg
    by_cases he : r = L.nextFile
    · subst he
      simp only [Ledger.alloc, Function.update_self, Option.some.injEq] at hg
      exact .inl ⟨rfl, hg.symm⟩
    · have hg' : L.heap r = some g := by simpa [Ledger.alloc, he] using hg
      exact .inr ⟨h.lt_nextFile hg', hg'⟩
  -- the files of the global table are older
  have hreg : ∀ (i : Fin openMax) r g, 3 ≤ i.val → L.openFiles i = some r →
      (L.alloc f).heap r = some g → L.heap r = some g := by
    intro i r g hi hr hg
    obtain ⟨-, g', hg', -⟩ := h.openReg i r hi hr
    rw [hold r g' hg'] at hg
    rw [hg', hg]
  refine
    { fresh := fun r hr => ?_, nextFd := h.nextFd, std := fun k hk => ?_
      openStd := h.openStd, openReg := fun i r hi hr => ?_
      openInj := fun i j r₁ r₂ f₁ f₂ hi hj h₁ h₂ hf₁ hf₂ he => ?_
      size := h.size, live := h.live, slots := fun p i r hr => ?_
      known := h.known, bareStd := h.bareStd, counts := fun r g hg hs => ?_ }
  · have hlt : L.nextFile < r := hr
    have hne : r ≠ L.nextFile := ne_of_gt hlt
    simpa [Ledger.alloc, hne] using h.fresh r (le_of_lt hlt)
  · obtain ⟨g, hg, hstd⟩ := h.std k hk
    exact ⟨g, hold k g hg, hstd⟩
  · obtain ⟨h3, g, hg, hop⟩ := h.openReg i r hi hr
    exact ⟨h3, g, hold r g hg, hop⟩
  · exact h.openInj i j r₁ r₂ f₁ f₂ hi hj h₁ h₂ (hreg i r₁ f₁ hi h₁ hf₁) (hreg j r₂ f₂ hj h₂ hf₂) he
  · obtain ⟨g, hg, hk⟩ := h.slots p i r hr
    exact ⟨g, hold r g hg, hk⟩
  · rcases hnew r g hg with ⟨rfl, rfl⟩ | ⟨-, hg'⟩
    · have hz : (L.alloc g).refs L.nextFile = 0 := h.refs_fresh
      rw [hz]
      simpa using hn hs
    · exact h.counts r g hg' hs

/-- Freeing a file that no slot refers to, off the global table, keeps the invariant. -/
theorem WF.free (h : L.WF) {r : FileRef} (h3 : 3 ≤ r) (hrefs : L.refs r = 0)
    (hoff : ¬ OnTable L.openFiles r) : (L.setFile r none).WF := by
  have hold : ∀ r', r' ≠ r → (L.setFile r none).heap r' = L.heap r' :=
    fun r' hne => setFile_heap_ne hne none
  have hnew : ∀ r' g, (L.setFile r none).heap r' = some g → L.heap r' = some g := by
    intro r' g hg
    by_cases he : r' = r
    · subst he
      simp [setFile] at hg
    · rw [hold r' he] at hg
      exact hg
  refine
    { fresh := fun r' hr' => ?_, nextFd := h.nextFd, std := fun k hk => ?_
      openStd := h.openStd, openReg := fun i r' hi hr' => ?_
      openInj := fun i j r₁ r₂ f₁ f₂ hi hj h₁ h₂ hf₁ hf₂ he =>
        h.openInj i j r₁ r₂ f₁ f₂ hi hj h₁ h₂ (hnew r₁ f₁ hf₁) (hnew r₂ f₂ hf₂) he
      size := h.size, live := h.live, slots := fun p i r' hr' => ?_
      known := h.known, bareStd := h.bareStd, counts := fun r' g hg hs => h.counts r' g (hnew r' g hg) hs }
  · by_cases he : r' = r
    · subst he
      simp [setFile]
    · rw [hold r' he]
      exact h.fresh r' hr'
  · have hne : k ≠ r := ne_of_lt (lt_of_lt_of_le hk h3)
    rw [hold k hne]
    exact h.std k hk
  · have hne : r' ≠ r := fun e => hoff ⟨i, hi, e ▸ hr'⟩
    rw [hold r' hne]
    exact h.openReg i r' hi hr'
  · have hne : r' ≠ r := by
      rintro rfl
      have := refs_pos h.live hr'
      omega
    rw [hold r' hne]
    exact h.slots p i r' hr'

theorem WF.not_std (h : L.WF) {i : Fin openMax} {r : FileRef} (h3 : 3 ≤ r)
    (hr : L.openFiles i = some r) : 3 ≤ i.val := by
  by_contra hc
  rw [h.openStd i (not_le.1 hc)] at hr
  cases hr
  exact hc h3

/-- A file stands on the global table once. -/
theorem WF.onTable_unique (h : L.WF) {i j : Fin openMax} {r : FileRef} (hi : 3 ≤ i.val)
    (hr : L.openFiles i = some r) (hr' : L.openFiles j = some r) : j = i := by
  obtain ⟨h3, f, hf, -⟩ := h.openReg i r hi hr
  exact h.openInj j i r r f f (h.not_std h3 hr') hi hr' hr hf hf rfl

/-- Taking a file off the global table keeps the invariant when no slot refers to it. -/
theorem WF.unregister (h : L.WF) {j : Fin openMax} {r : FileRef} (hj : 3 ≤ j.val)
    (hr : L.openFiles j = some r) (hrefs : L.refs r = 0) : (L.unregister j).WF := by
  have hsub : ∀ (i : Fin openMax) r', (L.unregister j).openFiles i = some r' →
      L.openFiles i = some r' := by
    intro i r' hi
    by_cases he : i = j
    · subst he
      simp [Ledger.unregister] at hi
    · simpa [Ledger.unregister, he] using hi
  have honTable : ∀ r', r' ≠ r → OnTable L.openFiles r' →
      OnTable (L.unregister j).openFiles r' := by
    rintro r' hne ⟨i, hi, hr'⟩
    have hij : i ≠ j := by
      rintro rfl
      rw [hr] at hr'
      exact hne (Option.some.inj hr').symm
    exact ⟨i, hi, by simpa [Ledger.unregister, hij] using hr'⟩
  refine
    { fresh := h.fresh, nextFd := h.nextFd, std := h.std
      openStd := fun i hi => ?_, openReg := fun i r' hi hr' => h.openReg i r' hi (hsub i r' hr')
      openInj := fun i k r₁ r₂ f₁ f₂ hi hk h₁ h₂ =>
        h.openInj i k r₁ r₂ f₁ f₂ hi hk (hsub i r₁ h₁) (hsub k r₂ h₂)
      size := ?_, live := h.live, slots := fun p i r' hr' => ?_
      known := h.known, bareStd := h.bareStd, counts := h.counts }
  · have hij : i ≠ j := by
      rintro rfl
      omega
    simpa [Ledger.unregister, hij] using h.openStd i hi
  · have hu := weigh_update (fun _ => 1) L.openFiles j none
    rw [hr] at hu
    have hs := h.size
    simp only [slotWeight_some, slotWeight_none] at hu
    show L.size - 1 = used (Function.update L.openFiles j none)
    unfold used at hs ⊢
    omega
  · obtain ⟨f, hf, hk⟩ := h.slots p i r' hr'
    refine ⟨f, hf, ?_⟩
    cases hk with
    | std h3 => exact .std h3
    | opened ho =>
        have hne : r' ≠ r := by
          rintro rfl
          have := refs_pos h.live hr'
          omega
        exact .opened (honTable r' hne ho)
    | dup h3 hd => exact .dup h3 hd

/-- Putting a file with a fresh number on the global table keeps the invariant. -/
theorem WF.register (h : L.WF) {j : Fin openMax} {r : FileRef} {f : File}
    (hj : L.openFiles j = none) (h3 : 3 ≤ r) (hf : L.heap r = some f) (hdup : f.isDupe = false)
    (hstd : f.stdFileStatus = -1) (hvn : f.fileVnode ≠ none) (hfd : f.globalFd = L.nextFd) :
    (L.register j r).WF := by
  have hj3 : 3 ≤ j.val := by
    by_contra hc
    rw [h.openStd j (not_le.1 hc)] at hj
    cases hj
  have hnew : ∀ (i : Fin openMax) r', (L.register j r).openFiles i = some r' →
      (i = j ∧ r' = r) ∨ L.openFiles i = some r' := by
    intro i r' hi
    by_cases he : i = j
    · subst he
      simp only [Ledger.register, Function.update_self, Option.some.injEq] at hi
      exact .inl ⟨rfl, hi.symm⟩
    · exact .inr (by simpa [Ledger.register, he] using hi)
  -- the number drawn for the new file is larger than the number of every file on the table
  have hlt : ∀ (i : Fin openMax) r' g, 3 ≤ i.val → L.openFiles i = some r' →
      L.heap r' = some g → g.globalFd ≠ L.nextFd := by
    intro i r' g hi hr' hg
    obtain ⟨-, g', hg', hop⟩ := h.openReg i r' hi hr'
    rw [hg] at hg'
    cases hg'
    exact ne_of_lt hop.lt
  refine
    { fresh := h.fresh, nextFd := ?_, std := h.std
      openStd := fun i hi => ?_, openReg := fun i r' hi hr' => ?_
      openInj := fun i k r₁ r₂ f₁ f₂ hi hk h₁ h₂ hf₁ hf₂ he => ?_
      size := ?_, live := h.live, slots := fun p i r' hr' => ?_
      known := h.known, bareStd := h.bareStd, counts := h.counts }
  · have := h.nextFd
    show 3 ≤ L.nextFd + 1
    omega
  · have hij : i ≠ j := by
      rintro rfl
      omega
    simpa [Ledger.register, hij] using h.openStd i hi
  · rcases hnew i r' hr' with ⟨-, rfl⟩ | hr'
    · refine ⟨h3, f, hf, ⟨hdup, hstd, hvn, ?_, ?_⟩⟩
      · rw [hfd]
        exact h.nextFd
      · show f.globalFd < L.nextFd + 1
        omega
    · obtain ⟨h3', g, hg, hop⟩ := h.openReg i r' hi hr'
      refine ⟨h3', g, hg, ⟨hop.1, hop.2, hop.3, hop.4, ?_⟩⟩
      have := hop.lt
      show g.globalFd < L.nextFd + 1
      omega
  · change L.heap r₁ = some f₁ at hf₁
    change L.heap r₂ = some f₂ at hf₂
    rcases hnew i r₁ h₁ with ⟨rfl, rfl⟩ | h₁' <;> rcases hnew k r₂ h₂ with ⟨rfl, rfl⟩ | h₂'
    · rfl
    · rw [hf] at hf₁
      cases hf₁
      exact absurd (he.symm.trans hfd) (hlt k r₂ f₂ hk h₂' hf₂)
    · rw [hf] at hf₂
      cases hf₂
      exact absurd (he.trans hfd) (hlt i r₁ f₁ hi h₁' hf₁)
    · exact h.openInj i k r₁ r₂ f₁ f₂ hi hk h₁' h₂' hf₁ hf₂ he
  · have hu := weigh_update (fun _ => 1) L.openFiles j (some r)
    rw [hj] at hu
    have hs := h.size
    simp only [slotWeight_some, slotWeight_none] at hu
    show L.size + 1 = used (Function.update L.openFiles j (some r))
    unfold used at hs ⊢
    omega
  · obtain ⟨g, hg, hk⟩ := h.slots p i r' hr'
    refine ⟨g, hg, ?_⟩
    cases hk with
    | std h3 => exact .std h3
    | opened ho =>
        obtain ⟨k, hk, hr''⟩ := ho
        have hkj : k ≠ j := by
          rintro rfl
          rw [hj] at hr''
          cases hr''
        exact .opened ⟨k, hk, by simpa [Ledger.register, hkj] using hr''⟩
    | dup h3 hd => exact .dup h3 hd

theorem WF.addVnode (h : L.WF) (x : Option VnodeRef) (d : Int) : (L.addVnode x d).WF :=
  { fresh := h.fresh, nextFd := h.nextFd, std := h.std, openStd := h.openStd
    openReg := h.openReg, openInj := h.openInj, size := h.size
    live := h.live, slots := h.slots, known := h.known, bareStd := h.bareStd, counts := h.counts }

end Ledger

end Os161.Vfs

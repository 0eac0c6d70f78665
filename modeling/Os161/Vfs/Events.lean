import Os161.Vfs.Ledger
import Mathlib.Logic.Relation

set_option autoImplicit false

/-!
# Events of the ledger

What the loops of the file layer do to one slot: a descriptor is closed (`Close`), left behind by
an exiting process (`Leave`) or shared with a new process (`Share`); and the two ways a slot comes
to refer to a new file: `Open` and `Dup`. Every event keeps the invariant of the ledger; for
`Close` this needs that a duplicate is closed only where nobody else refers to it (`SoleDups`),
and that condition is kept by the event, so that it can be asked once, before the loop.
-/

namespace Os161.Vfs.Ledger

open Os161.Lib.Slots

variable {L L' : Ledger} {p q : ProcRef} {fd : Int}

/-- Every duplicate with the number `fd` in the table of `p` has no other slot. -/
def SoleDups (L : Ledger) (p : ProcRef) (fd : Int) : Prop :=
  ∀ i r f, L.row p i = some r → L.heap r = some f → f.localFd = fd → f.isDupe = true →
    ∀ q j, L.row q j = some r → q = p ∧ j = i

/-- No slot of `p` has the number `fd`. -/
def Unused (L : Ledger) (p : ProcRef) (fd : Int) : Prop :=
  ∀ i r f, L.row p i = some r → L.heap r = some f → f.localFd ≠ fd

/-- One slot of `p` with the number `fd` is closed. -/
inductive Close (p : ProcRef) (fd : Int) (L : Ledger) : Ledger → Prop where
  /-- A duplicate is freed. -/
  | dup {i : Fin openMax} {r : FileRef} {f : File} :
      L.row p i = some r → L.heap r = some f → f.localFd = fd → f.isDupe = true →
        Close p fd L ((L.setSlot p i none).setFile r none)
  /-- The last reference to a file of the global table. -/
  | last {i j : Fin openMax} {r : FileRef} {f : File} :
      L.row p i = some r → L.heap r = some f → f.localFd = fd → 3 ≤ j.val →
        L.openFiles j = some r → f.refcount = 1 →
        Close p fd L ((((L.setSlot p i none).unregister j).setFile r none).addVnode f.fileVnode (-1))
  /-- A file of the global table loses one of several references. -/
  | shared {i : Fin openMax} {r : FileRef} {f : File} :
      L.row p i = some r → L.heap r = some f → f.localFd = fd → OnTable L.openFiles r →
        f.refcount ≠ 1 →
        Close p fd L ((L.setSlot p i none).setCount r f (f.refcount - 1))
  /-- A standard file is closed; the count that drops is that of a standard file. -/
  | std {i : Fin openMax} {r k : FileRef} {f g : File} {n : Int} :
      L.row p i = some r → L.heap r = some f → f.localFd = fd → r < 3 → k < 3 →
        L.heap k = some g → Close p fd L ((L.setSlot p i none).setCount k g n)

/-- An exiting process lets go of one slot. -/
inductive Leave (p : ProcRef) (L : Ledger) : Ledger → Prop where
  | last {i j : Fin openMax} {r : FileRef} {f : File} :
      L.row p i = some r → L.heap r = some f → 3 ≤ j.val → L.openFiles j = some r →
        f.refcount = 1 →
        Leave p L ((((L.setSlot p i none).unregister j).setFile r none).addVnode f.fileVnode (-1))
  | shared {i : Fin openMax} {r : FileRef} {f : File} :
      L.row p i = some r → L.heap r = some f → f.stdFileStatus = -1 → 1 < f.refcount →
        Leave p L (((L.setSlot p i none).setCount r f (f.refcount - 1)).addVnode f.fileVnode (-1))

/-- A new process `q` gets the file in one slot of `p`. -/
inductive Share (p q : ProcRef) (L : Ledger) : Ledger → Prop where
  | share {i : Fin openMax} {r : FileRef} {f : File} :
      L.row p i = some r → L.heap r = some f → (∀ r', L.row q i = some r' → r' < 3) →
        Share p q L
          (((L.addVnode f.fileVnode 1).setCount r f (f.refcount + 1)).setSlot q i (some r))

/-- A slot of `p` is filled with `r`, or the table is full and nothing happens. -/
inductive Placed (p : ProcRef) (r : FileRef) (L : Ledger) : Ledger → Prop where
  | slot {i : Fin openMax} : L.row p i = none → Placed p r L (L.setSlot p i (some r))
  | full : (∀ i, L.row p i ≠ none) → Placed p r L L

/-- The duplicate of a file under a new number. -/
def dupOf (f : File) (newfd : Int) : File :=
  { f with refcount := f.refcount + 1, localFd := newfd, isDupe := true }

/-- The file `f` at `r`, held by `p`, is duplicated under the number `newfd`. -/
inductive Dup (p : ProcRef) (r : FileRef) (f : File) (newfd : Int) (L : Ledger) : Ledger → Prop where
  | dup {i : Fin openMax} {L' : Ledger} : L.row p i = some r → L.heap r = some f →
      Placed p L.nextFile
        (((L.addVnode f.fileVnode 1).setCount r f (f.refcount + 1)).alloc (dupOf f newfd)) L' →
      Dup p r f newfd L L'

/-- What `open` makes of a new file. -/
structure NewFile (nextFd : Int) (f : File) : Prop where
  refcount : f.refcount = 1
  fileVnode : f.fileVnode ≠ none
  globalFd : f.globalFd = nextFd
  localFd : f.localFd = nextFd
  isDupe : f.isDupe = false
  stdFileStatus : f.stdFileStatus = -1

/-- `p` opens the new file `f`. -/
inductive Open (p : ProcRef) (f : File) (L : Ledger) : Ledger → Prop where
  | opened {j : Fin openMax} {L' : Ledger} : NewFile L.nextFd f → L.openFiles j = none →
      Placed p L.nextFile (((L.addVnode f.fileVnode 1).alloc f).register j L.nextFile) L' →
      Open p f L L'

/-! ## Events keep the invariant -/

/-- A slot that is the only one of its file leaves no reference when it is cleared. -/
theorem refs_clearSlot_of_sole {i : Fin openMax} {r : FileRef}
    (hsole : ∀ q j, L.row q j = some r → q = p ∧ j = i) : (L.setSlot p i none).refs r = 0 := by
  apply total_eq_zero
  intro q j r' hr'
  rw [setSlot_row] at hr'
  split_ifs at hr' with hc
  have hne : r' ≠ r := by
    rintro rfl
    exact hc (hsole q j hr')
  simp [hne]

theorem WF.dup_not_onTable (h : L.WF) {r : FileRef} {f : File} (hf : L.heap r = some f)
    (hd : f.isDupe = true) : ¬ OnTable L.openFiles r := by
  rintro ⟨j, hj, hr⟩
  obtain ⟨-, g, hg, hop⟩ := h.openReg j r hj hr
  rw [hf] at hg
  cases hg
  rw [hop.isDupe] at hd
  cases hd

theorem WF.dup_three (h : L.WF) {r : FileRef} {f : File} (hf : L.heap r = some f)
    (hd : f.isDupe = true) : 3 ≤ r := by
  by_contra hc
  have hstd := h.std_status (not_le.1 hc) hf
  rw [hstd.isDupe] at hd
  cases hd

theorem WF.opened (h : L.WF) {r : FileRef} {f : File} (hf : L.heap r = some f)
    (ho : OnTable L.openFiles r) : 3 ≤ r ∧ OpenedFile L.nextFd f := by
  obtain ⟨j, hj, hr⟩ := ho
  obtain ⟨h3, g, hg, hop⟩ := h.openReg j r hj hr
  rw [hf] at hg
  cases hg
  exact ⟨h3, hop⟩

/-- A file of the global table with the count `1` has no slot left once one is cleared. -/
theorem WF.refs_last (h : L.WF) {i : Fin openMax} {r : FileRef} {f : File}
    (hr : L.row p i = some r) (hf : L.heap r = some f) (ho : OnTable L.openFiles r)
    (hone : f.refcount = 1) : (L.setSlot p i none).refs r = 0 := by
  obtain ⟨-, hop⟩ := h.opened hf ho
  have h₁ := h.counts r f hf hop.stdFileStatus
  have h₂ := refs_clearSlot (h.live p i r hr) hr
  simp only [spare, hop.isDupe, Bool.false_eq_true, if_false] at h₁
  omega

/-- The last slot of a file of the global table goes away with the file. -/
theorem WF.dropLast (h : L.WF) {i j : Fin openMax} {r : FileRef} {f : File} {x : Option VnodeRef}
    (hr : L.row p i = some r) (hf : L.heap r = some f) (hj : 3 ≤ j.val)
    (ho : L.openFiles j = some r) (hone : f.refcount = 1) :
    ((((L.setSlot p i none).unregister j).setFile r none).addVnode x (-1)).WF := by
  have hrefs := h.refs_last hr hf ⟨j, hj, ho⟩ hone
  have hoff : ¬ OnTable (Ledger.unregister (L.setSlot p i none) j).openFiles r := by
    rintro ⟨k, -, hr'⟩
    by_cases hk : k = j
    · subst hk
      simp [Ledger.unregister] at hr'
    · refine hk (h.onTable_unique hj ho ?_)
      simpa [Ledger.unregister, hk, setSlot, setRow] using hr'
  have h₁ := (h.clearSlot (h.live p i r hr) i).unregister hj ho hrefs
  exact (h₁.free (h.openReg j r hj ho).1 hrefs hoff).addVnode x (-1)

theorem Close.wf (hc : Close p fd L L') (h : L.WF) (hsole : L.SoleDups p fd) : L'.WF := by
  cases hc with
  | @dup i r f hr hf hn hd =>
      have hrefs := refs_clearSlot_of_sole (hsole i r f hr hf hn hd)
      exact (h.clearSlot (h.live p i r hr) i).free (h.dup_three hf hd) hrefs
        (h.dup_not_onTable hf hd)
  | last hr hf hn hj ho hone => exact h.dropLast hr hf hj ho hone
  | @shared i r f hr hf hn ho hne =>
      apply (h.clearSlot (h.live p i r hr) i).setCount hf
      intro hs
      have h₁ := h.counts r f hf hs
      have h₂ := refs_clearSlot (h.live p i r hr) hr
      omega
  | @std i r k f g n hr hf hn h3 hk hg =>
      apply (h.clearSlot (h.live p i r hr) i).setCount hg
      intro hs
      exact absurd hs (h.std_status hk hg).stdFileStatus_ne

theorem Leave.wf (hl : Leave p L L') (h : L.WF) : L'.WF := by
  cases hl with
  | last hr hf hj ho hone => exact h.dropLast hr hf hj ho hone
  | @shared i r f hr hf hs hlt =>
      refine WF.addVnode ?_ _ _
      apply (h.clearSlot (h.live p i r hr) i).setCount hf
      intro _
      have h₁ := h.counts r f hf hs
      have h₂ := refs_clearSlot (h.live p i r hr) hr
      omega

/-- What a slot holds after a count has been raised. -/
theorem WF.raise (h : L.WF) {r : FileRef} {f : File} (hf : L.heap r = some f)
    (x : Option VnodeRef) : ((L.addVnode x 1).setCount r f (f.refcount + 1)).WF := by
  apply (h.addVnode x 1).setCount hf
  intro hs
  have h₁ := h.counts r f hf hs
  have h₂ : (L.addVnode x 1).refs r = L.refs r := rfl
  omega

theorem Kind.with_count {t : Table openMax FileRef} {r : FileRef} {f : File} {n : Int}
    (h : Kind t r f) : Kind t r { f with refcount := n } := by
  cases h with
  | std h3 => exact .std h3
  | opened ho => exact .opened ho
  | dup h3 hd => exact .dup h3 ⟨hd.1, hd.2⟩

theorem setCount_heap_self {r : FileRef} {f : File} {n : Int} :
    (L.setCount r f n).heap r = some { f with refcount := n } := by
  simp [setCount, setFile]

theorem Share.wf (hs : Share p q L L') (h : L.WF) (hq : q < L.nextProc) (hb : L.space q ≠ some false) :
    L'.WF := by
  cases hs with
  | @share i r f hr hf hold =>
      obtain ⟨g, hg, hk⟩ := h.slots p i r hr
      rw [hf] at hg
      cases hg
      apply (h.raise hf f.fileVnode).fillSlot hq i setCount_heap_self hk.with_count hb
      intro hs
      have h₁ := h.counts r f hf hs
      have h₂ : ((L.addVnode f.fileVnode 1).setCount r f (f.refcount + 1)).refs r = L.refs r := rfl
      have h₃ : spare { f with refcount := f.refcount + 1 } = spare f := rfl
      simp only
      omega

theorem Placed.wf {r : FileRef} {f : File} (hpl : Placed p r L L') (h : L.WF)
    (hp : p < L.nextProc) (hb : L.space p ≠ some false) (hf : L.heap r = some f)
    (hk : Kind L.openFiles r f)
    (hcount : f.stdFileStatus = -1 → L.refs r + spare f < f.refcount) : L'.WF := by
  cases hpl with
  | slot _ => exact h.fillSlot hp _ hf hk hb hcount
  | full _ => exact h

theorem alloc_heap_self (L : Ledger) (f : File) : (L.alloc f).heap L.nextFile = some f := by
  simp [alloc]

theorem Open.wf {f : File} (ho : Open p f L L') (h : L.WF) (hp : p < L.nextProc)
    (hb : L.space p ≠ some false) : L'.WF := by
  cases ho with
  | @opened j _ hnew hj hpl =>
      have hspare : spare f = 0 := by simp [spare, hnew.isDupe]
      have h₁ : ((L.addVnode f.fileVnode 1).alloc f).WF := by
        apply (h.addVnode _ _).alloc
        intro _
        rw [hspare, hnew.refcount]
        omega
      have hheap : ((L.addVnode f.fileVnode 1).alloc f).heap L.nextFile = some f :=
        alloc_heap_self _ f
      have h₂ := h₁.register hj h.three hheap hnew.isDupe hnew.stdFileStatus hnew.fileVnode
        hnew.globalFd
      have hj3 : 3 ≤ j.val := by
        by_contra hc
        rw [h.openStd j (not_le.1 hc)] at hj
        cases hj
      refine hpl.wf h₂ hp hb hheap (.opened ⟨j, hj3, by simp [register]⟩) fun _ => ?_
      have hz : ((L.addVnode f.fileVnode 1).alloc f |>.register j L.nextFile).refs L.nextFile = 0 :=
        h.refs_fresh
      rw [hz, hspare, hnew.refcount]
      decide

theorem Dup.wf {r : FileRef} {f : File} (hd : Dup p r f fd L L') (h : L.WF)
    (hp : p < L.nextProc) (hb : L.space p ≠ some false) : L'.WF := by
  cases hd with
  | @dup i _ hr hf hpl =>
      obtain ⟨g, hg, hk⟩ := h.slots p i r hr
      rw [hf] at hg
      cases hg
      have hpos := refs_pos h.live hr
      have hspare : spare (dupOf f fd) = 1 := rfl
      have hcount : f.stdFileStatus = -1 → 1 ≤ f.refcount := by
        intro hs
        have h₁ := h.counts r f hf hs
        have h₂ : 0 ≤ spare f := by
          unfold spare
          split_ifs <;> omega
        omega
      have h₁ := h.raise hf f.fileVnode
      have h₂ : (((L.addVnode f.fileVnode 1).setCount r f (f.refcount + 1)).alloc
          (dupOf f fd)).WF := by
        apply h₁.alloc
        intro hs
        have := hcount hs
        rw [hspare]
        show 1 ≤ f.refcount + 1
        omega
      have hdup : DupFile (dupOf f fd) := by
        refine ⟨rfl, ?_⟩
        show f.fileVnode = none ↔ f.stdFileStatus ≠ -1
        cases hk with
        | std h3 =>
            have hstd := h.std_status h3 hf
            exact iff_of_true hstd.fileVnode hstd.stdFileStatus_ne
        | opened ho =>
            have hop := (h.opened hf ho).2
            exact iff_of_false hop.fileVnode (not_not.2 hop.stdFileStatus)
        | dup _ hd => exact hd.fileVnode
      apply hpl.wf h₂ hp hb (alloc_heap_self _ _) (.dup h.three hdup)
      intro hs
      have hz : (((L.addVnode f.fileVnode 1).setCount r f (f.refcount + 1)).alloc
          (dupOf f fd)).refs L.nextFile = 0 := h.refs_fresh
      have := hcount hs
      rw [hz, hspare]
      show ((0 : Nat) : Int) + 1 < f.refcount + 1
      omega

/-! ## Events that only give up slots -/

/-- The files differ in their reference counts at most. -/
def SameFile (f f' : File) : Prop := f' = { f with refcount := f'.refcount }

theorem SameFile.trans {f f' f'' : File} (h : SameFile f f') (h' : SameFile f' f'') :
    SameFile f f'' := by
  unfold SameFile at *
  rw [h', h]

theorem SameFile.localFd {f f' : File} (h : SameFile f f') : f'.localFd = f.localFd := by
  rw [h]

theorem SameFile.isDupe {f f' : File} (h : SameFile f f') : f'.isDupe = f.isDupe := by
  rw [h]

theorem SameFile.fileVnode {f f' : File} (h : SameFile f f') : f'.fileVnode = f.fileVnode := by
  rw [h]

/-- The table of `p` may lose slots, files may be freed or change their counts, and nothing else
happens. -/
structure Shrinks (p : ProcRef) (L L' : Ledger) : Prop where
  row : ∀ q j r, L'.row q j = some r → L.row q j = some r
  other : ∀ q, q ≠ p → L'.row q = L.row q
  heap : ∀ r f', L'.heap r = some f' → ∃ f, L.heap r = some f ∧ SameFile f f'
  nextProc : L'.nextProc = L.nextProc
  space : L'.space = L.space
  nextFd : L'.nextFd = L.nextFd
  nextFile : L'.nextFile = L.nextFile

theorem Shrinks.refl (p : ProcRef) (L : Ledger) : Shrinks p L L :=
  ⟨fun _ _ _ h => h, fun _ _ => rfl, fun _ f' h => ⟨f', h, rfl⟩, rfl, rfl, rfl, rfl⟩

theorem Shrinks.trans {L'' : Ledger} (h : Shrinks p L L') (h' : Shrinks p L' L'') :
    Shrinks p L L'' where
  row q j r hr := h.row q j r (h'.row q j r hr)
  other q hq := (h'.other q hq).trans (h.other q hq)
  heap r f'' hf'' := by
    obtain ⟨f', hf', hs'⟩ := h'.heap r f'' hf''
    obtain ⟨f, hf, hs⟩ := h.heap r f' hf'
    exact ⟨f, hf, hs.trans hs'⟩
  nextProc := h'.nextProc.trans h.nextProc
  space := h'.space.trans h.space
  nextFd := h'.nextFd.trans h.nextFd
  nextFile := h'.nextFile.trans h.nextFile

theorem shrinks_clearSlot (L : Ledger) (p : ProcRef) (i : Fin openMax) :
    Shrinks p L (L.setSlot p i none) where
  row q j r hr := by
    rw [setSlot_row] at hr
    split_ifs at hr
    exact hr
  other q hq := by simp [setSlot, setRow, hq]
  heap r f hf := ⟨f, hf, rfl⟩
  nextProc := rfl
  space := rfl
  nextFd := rfl
  nextFile := rfl

theorem shrinks_free (L : Ledger) (p : ProcRef) (r : FileRef) :
    Shrinks p L (L.setFile r none) where
  row _ _ _ hr := hr
  other _ _ := rfl
  heap r' f hf := by
    by_cases he : r' = r
    · subst he
      simp [setFile] at hf
    · exact ⟨f, by simpa [setFile, he] using hf, rfl⟩
  nextProc := rfl
  space := rfl
  nextFd := rfl
  nextFile := rfl

theorem shrinks_setCount {r : FileRef} {f : File} (p : ProcRef) (hf : L.heap r = some f)
    (n : Int) : Shrinks p L (L.setCount r f n) where
  row _ _ _ hr := hr
  other _ _ := rfl
  heap r' f' hf' := by
    by_cases he : r' = r
    · subst he
      rw [setCount_heap_self] at hf'
      cases hf'
      exact ⟨f, hf, rfl⟩
    · exact ⟨f', by simpa [setCount, setFile, he] using hf', rfl⟩
  nextProc := rfl
  space := rfl
  nextFd := rfl
  nextFile := rfl

theorem shrinks_dropLast (L : Ledger) (p : ProcRef) (i j : Fin openMax) (r : FileRef)
    (x : Option VnodeRef) :
    Shrinks p L ((((L.setSlot p i none).unregister j).setFile r none).addVnode x (-1)) := by
  have h := (shrinks_clearSlot L p i).trans (shrinks_free (L.setSlot p i none) p r)
  exact ⟨h.row, h.other, h.heap, rfl, rfl, rfl, rfl⟩

theorem Close.shrinks (hc : Close p fd L L') : Shrinks p L L' := by
  cases hc with
  | dup => exact (shrinks_clearSlot L p _).trans (shrinks_free _ p _)
  | last => exact shrinks_dropLast L p _ _ _ _
  | @shared i r f hr hf =>
      have hf' : (L.setSlot p i none).heap r = some f := hf
      exact (shrinks_clearSlot L p i).trans (shrinks_setCount p hf' _)
  | @std i r k f g n hr hf hn h3 hk hg =>
      have hg' : (L.setSlot p i none).heap k = some g := hg
      exact (shrinks_clearSlot L p i).trans (shrinks_setCount p hg' n)

theorem Leave.shrinks (hl : Leave p L L') : Shrinks p L L' := by
  cases hl with
  | last => exact shrinks_dropLast L p _ _ _ _
  | @shared i r f hr hf =>
      have hf' : (L.setSlot p i none).heap r = some f := hf
      have h := (shrinks_clearSlot L p i).trans (shrinks_setCount p hf' (f.refcount - 1))
      exact ⟨h.row, h.other, h.heap, rfl, rfl, rfl, rfl⟩

/-- Closing a number leaves the slots with other numbers alone. -/
theorem Close.row_keep (hc : Close p fd L L') {q : ProcRef} {j : Fin openMax} {r : FileRef}
    {f : File} (hr : L.row q j = some r) (hf : L.heap r = some f)
    (hne : q = p → f.localFd ≠ fd) : L'.row q j = some r := by
  have key : ∀ {i : Fin openMax} {r' : FileRef} {f' : File}, L.row p i = some r' →
      L.heap r' = some f' → f'.localFd = fd → (L.setSlot p i none).row q j = some r := by
    intro i r' f' hr' hf' hn
    rw [setSlot_row, if_neg]
    · exact hr
    · rintro ⟨rfl, rfl⟩
      rw [hr] at hr'
      cases hr'
      rw [hf] at hf'
      cases hf'
      exact hne rfl hn
  cases hc with
  | dup hr' hf' hn => exact key hr' hf' hn
  | last hr' hf' hn => exact key hr' hf' hn
  | shared hr' hf' hn => exact key hr' hf' hn
  | std hr' hf' hn => exact key hr' hf' hn

theorem SoleDups.of_shrinks (h : L.SoleDups p fd) (hs : Shrinks p L L') : L'.SoleDups p fd := by
  intro i r f' hr hf' hn hd q j hq
  obtain ⟨f, hf, hsame⟩ := hs.heap r f' hf'
  refine h i r f (hs.row p i r hr) hf ?_ ?_ q j (hs.row q j r hq)
  · rw [← hsame.localFd]
    exact hn
  · rw [← hsame.isDupe]
    exact hd

/-- What the loop of `close_file_on_ptable` does: it closes slots with the number `fd`. -/
structure Closes (p : ProcRef) (fd : Int) (L L' : Ledger) : Prop where
  path : Relation.ReflTransGen (Close p fd) L L'
  start : L.WF
  sole : L.SoleDups p fd

theorem Closes.wf_and_sole (h : Closes p fd L L') : L'.WF ∧ L'.SoleDups p fd := by
  obtain ⟨path, start, sole⟩ := h
  induction path with
  | refl => exact ⟨start, sole⟩
  | tail _ hc ih => exact ⟨hc.wf ih.1 ih.2, ih.2.of_shrinks hc.shrinks⟩

theorem Closes.shrinks (h : Closes p fd L L') : Shrinks p L L' := by
  obtain ⟨path, -, -⟩ := h
  induction path with
  | refl => exact Shrinks.refl p L
  | tail _ hc ih => exact ih.trans hc.shrinks

theorem Closes.tail {L'' : Ledger} (h : Closes p fd L L') (hc : Close p fd L' L'') :
    Closes p fd L L'' :=
  ⟨h.path.tail hc, h.start, h.sole⟩

/-- What is kept by every single closing, with the invariant at hand, is kept by the loop. -/
theorem Closes.keeps {I : Ledger → Prop} (h : Closes p fd L L')
    (hstep : ∀ M M', M.WF → M.SoleDups p fd → I M → Close p fd M M' → I M') (hI : I L) : I L' := by
  have key : ∀ M, Relation.ReflTransGen (Close p fd) L M → I M := by
    intro M hM
    induction hM with
    | refl => exact hI
    | tail hpath hc ih =>
        obtain ⟨hwf, hsole⟩ := Closes.wf_and_sole ⟨hpath, h.start, h.sole⟩
        exact hstep _ _ hwf hsole ih hc
  exact key L' h.path

/-- What the loop of `close_all_files_ptable` does. -/
structure Leaves (p : ProcRef) (L L' : Ledger) : Prop where
  path : Relation.ReflTransGen (Leave p) L L'
  start : L.WF

theorem Leaves.wf (h : Leaves p L L') : L'.WF := by
  obtain ⟨path, start⟩ := h
  induction path with
  | refl => exact start
  | tail _ hl ih => exact hl.wf ih

theorem Leaves.shrinks (h : Leaves p L L') : Shrinks p L L' := by
  obtain ⟨path, -⟩ := h
  induction path with
  | refl => exact Shrinks.refl p L
  | tail _ hl ih => exact ih.trans hl.shrinks

theorem Leaves.keeps {I : Ledger → Prop} (h : Leaves p L L')
    (hstep : ∀ M M', M.WF → I M → Leave p M M' → I M') (hI : I L) : I L' := by
  have key : ∀ M, Relation.ReflTransGen (Leave p) L M → I M := by
    intro M hM
    induction hM with
    | refl => exact hI
    | tail hpath hl ih => exact hstep _ _ (Leaves.wf ⟨hpath, h.start⟩) ih hl
  exact key L' h.path

/-- What is left of `p` when it is destroyed: it lets go of all files but the standard ones, and
its table disappears. -/
structure Gone (p : ProcRef) (L L' : Ledger) : Prop where
  ends : ∃ L₁, Leaves p L L₁ ∧
    (∀ i r f, L₁.row p i = some r → L₁.heap r = some f → f.stdFileStatus ≠ -1) ∧
    L' = L₁.dropRow p

theorem Gone.wf (h : Gone p L L') : L'.WF := by
  obtain ⟨L₁, hl, -, rfl⟩ := h.ends
  exact hl.wf.dropRow p

/-! ## Sharing a table -/

/-- The table of `q` may change, counts may change, and nothing else happens. -/
structure Fills (q : ProcRef) (L L' : Ledger) : Prop where
  other : ∀ q', q' ≠ q → L'.row q' = L.row q'
  heap : ∀ r f', L'.heap r = some f' → ∃ f, L.heap r = some f ∧ SameFile f f'
  openFiles : L'.openFiles = L.openFiles
  nextProc : L'.nextProc = L.nextProc
  space : L'.space = L.space
  nextFd : L'.nextFd = L.nextFd

theorem Share.fills (h : Share p q L L') : Fills q L L' := by
  cases h with
  | @share i r f hr hf hold =>
      have hf' : (L.addVnode f.fileVnode 1).heap r = some f := hf
      exact
        { other := fun q' hq' => by simp [setSlot, setRow, hq', setCount, setFile, addVnode]
          heap := (shrinks_setCount p hf' (f.refcount + 1)).heap
          openFiles := rfl, nextProc := rfl, space := rfl, nextFd := rfl }

/-- What the loop of `copy_p_filetable` does for the new process `q`. -/
structure Shares (p q : ProcRef) (L L' : Ledger) : Prop where
  path : Relation.ReflTransGen (Share p q) L L'
  start : L.WF
  known : q < L.nextProc
  loaded : L.space q ≠ some false

theorem Shares.fills (h : Shares p q L L') : Fills q L L' := by
  obtain ⟨path, -, -, -⟩ := h
  induction path with
  | refl => exact ⟨fun _ _ => rfl, fun _ f' h => ⟨f', h, rfl⟩, rfl, rfl, rfl, rfl⟩
  | tail _ hs ih =>
      have hs := hs.fills
      refine ⟨fun q' hq' => (hs.other q' hq').trans (ih.other q' hq'), fun r f'' hf'' => ?_,
        hs.openFiles.trans ih.openFiles, hs.nextProc.trans ih.nextProc, hs.space.trans ih.space,
        hs.nextFd.trans ih.nextFd⟩
      obtain ⟨f', hf', hsame'⟩ := hs.heap r f'' hf''
      obtain ⟨f, hf, hsame⟩ := ih.heap r f' hf'
      exact ⟨f, hf, hsame.trans hsame'⟩

theorem Shares.keeps {I : Ledger → Prop} (h : Shares p q L L')
    (hstep : ∀ M M', M.WF → q < M.nextProc → I M → Share p q M M' → I M') (hI : I L) :
    L'.WF ∧ I L' := by
  have key : ∀ M, Relation.ReflTransGen (Share p q) L M → M.WF ∧ I M := by
    intro M hM
    induction hM with
    | refl => exact ⟨h.start, hI⟩
    | @tail M M' hpath hs ih =>
        have hf := Shares.fills ⟨hpath, h.start, h.known, h.loaded⟩
        have hq : q < M.nextProc := by
          rw [hf.nextProc]
          exact h.known
        have hb : M.space q ≠ some false := by
          rw [hf.space]
          exact h.loaded
        exact ⟨hs.wf ih.1 hq hb, hstep M M' ih.1 hq ih.2 hs⟩
  exact key L' h.path

theorem Shares.wf (h : Shares p q L L') : L'.WF :=
  (h.keeps (I := fun _ => True) (fun _ _ _ _ _ _ => trivial) trivial).1

end Os161.Vfs.Ledger

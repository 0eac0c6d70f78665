import Os161.Vfs.Events

set_option autoImplicit false

/-!
# Exact counts

Two refinements of the invariant of the ledger, each kept by the events under a condition of its
own. `Exact`: the reference count of a file on the global table is the number of its slots, and
there is one. `Balanced`: the references held on a vnode are the slots that refer to files on it.
-/

namespace Os161.Vfs.Ledger

open Os161.Lib.Slots

variable {L L' : Ledger} {p q : ProcRef} {fd : Int}

theorem refs_setSlot_ne (hp : p < L.nextProc) {i : Fin openMax} {x : Option FileRef} {r : FileRef}
    (hold : L.row p i ≠ some r) (hnew : x ≠ some r) : (L.setSlot p i x).refs r = L.refs r := by
  have h := refs_setSlot hp i x r
  rw [if_neg hold, if_neg hnew] at h
  omega

/-- A weight that counts nothing in the table of `p` does not see `p` disappear. -/
theorem total_dropRow_of_zero {w : FileRef → Nat}
    (hz : ∀ i r, L.row p i = some r → w r = 0) : total w (L.dropRow p) = total w L := by
  unfold total
  apply Finset.sum_congr rfl
  intro q _
  by_cases hq : q = p
  · subst hq
    rw [weigh_eq_zero hz]
    exact weigh_eq_zero fun i r hr => by simp [Ledger.dropRow] at hr
  · simp [Ledger.dropRow, hq]

/-! ## Reference counts -/

/-- A file on the global table has as many slots as its count says, and at least one. -/
def Exact (L : Ledger) : Prop :=
  ∀ r f, OnTable L.openFiles r → L.heap r = some f → f.refcount = L.refs r ∧ 1 ≤ L.refs r

/-- Clearing the slot of one file leaves the others as they were. -/
theorem refs_clear_other (h : L.WF) {i : Fin openMax} {r r' : FileRef} (hr : L.row p i = some r)
    (hne : r' ≠ r) : (L.setSlot p i none).refs r' = L.refs r' := by
  refine refs_setSlot_ne (h.live p i r hr) ?_ (by simp)
  rw [hr]
  exact fun e => hne (Option.some.inj e).symm

/-- The last reference goes away with the file. -/
theorem Exact.dropLast (he : L.Exact) (h : L.WF) {i j : Fin openMax} {r : FileRef}
    {x : Option VnodeRef} (hr : L.row p i = some r) (hj : 3 ≤ j.val)
    (ho : L.openFiles j = some r) :
    ((((L.setSlot p i none).unregister j).setFile r none).addVnode x (-1)).Exact := by
  intro r' f' hon hf'
  obtain ⟨k, hk, hrk⟩ := hon
  have hkj : k ≠ j := by
    rintro rfl
    simp [addVnode, setFile, unregister] at hrk
  have hrk' : L.openFiles k = some r' := by
    simpa [addVnode, setFile, unregister, hkj, setSlot, setRow] using hrk
  have hne : r' ≠ r := by
    rintro rfl
    exact hkj (h.onTable_unique hj ho hrk')
  have hf : L.heap r' = some f' := by
    simpa [addVnode, setFile, unregister, hne, setSlot, setRow] using hf'
  have hrefs : ((((L.setSlot p i none).unregister j).setFile r none).addVnode x (-1)).refs r' =
      L.refs r' := refs_clear_other h hr hne
  rw [hrefs]
  exact he r' f' ⟨k, hk, hrk'⟩ hf

/-- One of several references goes away. -/
theorem Exact.dropShared (he : L.Exact) (h : L.WF) {i : Fin openMax} {r : FileRef} {f : File}
    {x : Option VnodeRef} {d : Int} (hr : L.row p i = some r) (hf : L.heap r = some f)
    (hmany : OnTable L.openFiles r → f.refcount ≠ 1) :
    (((L.setSlot p i none).setCount r f (f.refcount - 1)).addVnode x d).Exact := by
  intro r' f' hon hf'
  have hon' : OnTable L.openFiles r' := hon
  by_cases hne : r' = r
  · subst hne
    obtain ⟨hcount, hpos⟩ := he r' f hon' hf
    have hclear := refs_clearSlot (h.live p i r' hr) hr
    have hne1 := hmany hon'
    have hf'' : f' = { f with refcount := f.refcount - 1 } := by
      have : some { f with refcount := f.refcount - 1 } = some f' := by
        rw [← setCount_heap_self (L := L.setSlot p i none)]
        exact hf'
      exact (Option.some.inj this).symm
    have hrefs : (((L.setSlot p i none).setCount r' f (f.refcount - 1)).addVnode x d).refs r' =
        (L.setSlot p i none).refs r' := rfl
    subst hf''
    rw [hrefs]
    simp only
    omega
  · have hf₁ : L.heap r' = some f' := by
      simpa [addVnode, setCount, setFile, hne, setSlot, setRow] using hf'
    have hrefs : (((L.setSlot p i none).setCount r f (f.refcount - 1)).addVnode x d).refs r' =
        L.refs r' := refs_clear_other h hr hne
    rw [hrefs]
    exact he r' f' hon' hf₁

theorem Close.exact (hc : Close p fd L L') (h : L.WF) (he : L.Exact) : L'.Exact := by
  cases hc with
  | @dup i r f hr hf hn hd =>
      intro r' f' hon hf'
      have hne : r' ≠ r := by
        rintro rfl
        exact h.dup_not_onTable hf hd hon
      have hf₁ : L.heap r' = some f' := by
        simpa [setFile, hne, setSlot, setRow] using hf'
      have hrefs : ((L.setSlot p i none).setFile r none).refs r' = L.refs r' :=
        refs_clear_other h hr hne
      rw [hrefs]
      exact he r' f' hon hf₁
  | last hr hf hn hj ho hone => exact he.dropLast h hr hj ho
  | @shared i r f hr hf hn ho hne =>
      exact he.dropShared (x := none) (d := 0) h hr hf fun _ => hne
  | @std i r k f g n hr hf hn h3 hk hg =>
      intro r' f' hon hf'
      have hon' : OnTable L.openFiles r' := hon
      obtain ⟨j, hj, hrj⟩ := hon'
      have h3' := (h.openReg j r' hj hrj).1
      have hne : r' ≠ r := fun e => not_lt.2 h3' (e ▸ h3)
      have hnek : r' ≠ k := fun e => not_lt.2 h3' (e ▸ hk)
      have hf₁ : L.heap r' = some f' := by
        simpa [setCount, setFile, hnek, setSlot, setRow] using hf'
      have hrefs : ((L.setSlot p i none).setCount k g n).refs r' = L.refs r' :=
        refs_clear_other h hr hne
      rw [hrefs]
      exact he r' f' hon hf₁

theorem Leave.exact (hl : Leave p L L') (h : L.WF) (he : L.Exact) : L'.Exact := by
  cases hl with
  | last hr hf hj ho hone => exact he.dropLast h hr hj ho
  | shared hr hf hs hlt => exact he.dropShared h hr hf fun _ => ne_of_gt hlt

theorem Share.exact (hs : Share p q L L') (h : L.WF) (hq : q < L.nextProc) (he : L.Exact) :
    L'.Exact := by
  cases hs with
  | @share i r f hr hf hold =>
      intro r' f' hon hf'
      have hon' : OnTable L.openFiles r' := hon
      obtain ⟨j, hj, hrj⟩ := hon'
      have h3 := (h.openReg j r' hj hrj).1
      -- the slot that is filled held nothing or a standard file
      have hfree : L.row q i ≠ some r' := fun e => not_lt.2 h3 (hold r' e)
      have hset := refs_setSlot (L := (L.addVnode f.fileVnode 1).setCount r f (f.refcount + 1))
        hq i (some r) r'
      have hrow : ((L.addVnode f.fileVnode 1).setCount r f (f.refcount + 1)).row q i ≠ some r' :=
        hfree
      have hsame : ((L.addVnode f.fileVnode 1).setCount r f (f.refcount + 1)).refs r' =
          L.refs r' := rfl
      rw [if_neg hrow, hsame] at hset
      by_cases hne : r' = r
      · subst hne
        obtain ⟨hcount, hpos⟩ := he r' f hon hf
        rw [if_pos rfl] at hset
        have hf'' : f' = { f with refcount := f.refcount + 1 } := by
          have : some { f with refcount := f.refcount + 1 } = some f' := by
            rw [← setCount_heap_self (L := L.addVnode f.fileVnode 1)]
            exact hf'
          exact (Option.some.inj this).symm
        subst hf''
        simp only
        omega
      · have hne' : some r ≠ some r' := fun e => hne (Option.some.inj e).symm
        rw [if_neg hne'] at hset
        have hf₁ : L.heap r' = some f' := by
          simpa [setCount, setFile, addVnode, hne, setSlot, setRow] using hf'
        obtain ⟨hcount, hpos⟩ := he r' f' hon hf₁
        omega

/-- Filling an empty slot with a file that is not on the global table. -/
theorem Placed.exact_of_off {r : FileRef} (hpl : Placed p r L L') (hp : p < L.nextProc)
    (hoff : ¬ OnTable L.openFiles r) (he : L.Exact) : L'.Exact := by
  cases hpl with
  | full _ => exact he
  | @slot i hi =>
      intro r' f' hon hf'
      have hne : some r ≠ some r' := fun e => hoff ((Option.some.inj e) ▸ hon)
      rw [refs_setSlot_ne hp (by simp [hi]) hne]
      exact he r' f' hon hf'

/-- A duplicate of a standard file, or of such a duplicate. -/
theorem Dup.exact {r : FileRef} {f : File} (hd : Dup p r f fd L L') (h : L.WF)
    (hp : p < L.nextProc) (hstd : f.stdFileStatus ≠ -1) (he : L.Exact) : L'.Exact := by
  cases hd with
  | @dup i _ hr hf hpl =>
      have hoff : ¬ OnTable L.openFiles r := fun ho => hstd (h.opened hf ho).2.stdFileStatus
      have hnew : ¬ OnTable L.openFiles L.nextFile := by
        rintro ⟨j, hj, hrj⟩
        obtain ⟨-, g, hg, -⟩ := h.openReg j _ hj hrj
        exact lt_irrefl _ (h.lt_nextFile hg)
      apply hpl.exact_of_off hp hnew
      intro r' f' hon hf'
      have hon' : OnTable L.openFiles r' := hon
      have hne : r' ≠ r := fun e => hoff (e ▸ hon')
      have hne' : r' ≠ L.nextFile := fun e => hnew (e ▸ hon')
      have hf₁ : L.heap r' = some f' := by
        simpa [alloc, setCount, setFile, addVnode, hne, hne'] using hf'
      exact he r' f' hon' hf₁

/-- A new file that gets its slot. -/
theorem Open.exact {f : File} (ho : Open p f L L') (h : L.WF) (hp : p < L.nextProc)
    (hfree : ∃ i, L.row p i = none) (he : L.Exact) : L'.Exact := by
  cases ho with
  | @opened j _ hnew hj hpl =>
      cases hpl with
      | full hfull =>
          obtain ⟨i, hi⟩ := hfree
          exact absurd hi (hfull i)
      | @slot i hi =>
          intro r' f' hon hf'
          have hset := refs_setSlot
            (L := ((L.addVnode f.fileVnode 1).alloc f).register j L.nextFile) hp i
            (some L.nextFile) r'
          have hsame : (((L.addVnode f.fileVnode 1).alloc f).register j L.nextFile).refs r' =
              L.refs r' := rfl
          rw [hsame, hi, if_neg (by simp)] at hset
          by_cases hne : r' = L.nextFile
          · subst hne
            have hf'' : f' = f := by
              have : some f = some f' := by
                rw [← alloc_heap_self (L.addVnode f.fileVnode 1) f]
                exact hf'
              exact (Option.some.inj this).symm
            subst hf''
            rw [if_pos rfl, h.refs_fresh] at hset
            rw [hnew.refcount]
            omega
          · have hne' : some L.nextFile ≠ some r' := fun e => hne (Option.some.inj e).symm
            rw [if_neg hne'] at hset
            have hf₁ : L.heap r' = some f' := by
              simpa [setSlot, setRow, register, alloc, addVnode, hne] using hf'
            have hon' : OnTable L.openFiles r' := by
              obtain ⟨k, hk, hrk⟩ := hon
              have hkj : k ≠ j := by
                rintro rfl
                exact hne' (by simpa [setSlot, setRow, register] using hrk)
              exact ⟨k, hk, by simpa [setSlot, setRow, register, alloc, addVnode, hkj] using hrk⟩
            obtain ⟨hcount, hpos⟩ := he r' f' hon' hf₁
            omega

theorem Exact.addRow (he : L.Exact) (h : L.WF) : L.addRow.Exact := by
  intro r f hon hf
  obtain ⟨j, hj, hrj⟩ := hon
  have h3 := (h.openReg j r hj hrj).1
  have hrefs : L.addRow.refs r = L.refs r := by
    apply h.total_addRow_of_std
    intro k hk
    have hne : k ≠ r := fun e => not_lt.2 h3 (e ▸ hk)
    simp [hne]
  rw [hrefs]
  exact he r f ⟨j, hj, hrj⟩ hf

/-- Dropping a table that holds standard files and their duplicates only. -/
theorem Exact.dropRow (he : L.Exact) (h : L.WF)
    (hstd : ∀ i r f, L.row p i = some r → L.heap r = some f → f.stdFileStatus ≠ -1) :
    (L.dropRow p).Exact := by
  intro r f hon hf
  have hf' : L.heap r = some f := hf
  have hop := (h.opened hf' hon).2
  have hrefs : (L.dropRow p).refs r = L.refs r := by
    apply total_dropRow_of_zero
    intro i r' hr'
    have hne : r' ≠ r := by
      rintro rfl
      exact hstd i r' f hr' hf' hop.stdFileStatus
    simp [hne]
  rw [hrefs]
  exact he r f hon hf'

theorem Gone.exact (hg : Gone p L L') (he : L.Exact) : L'.Exact := by
  obtain ⟨L₁, hl, hstd, rfl⟩ := hg.ends
  have he₁ : L₁.Exact := hl.keeps (fun M M' hwf hM hlv => hlv.exact hwf hM) he
  exact he₁.dropRow hl.wf hstd

/-! ## References on vnodes -/

/-- The references held on a vnode are the slots that refer to files on it. -/
def Balanced (L : Ledger) : Prop := ∀ v, L.vnFile v = L.onVnode v

/-- Every file with a vnode and the number `fd` in the table of `p` is an original with one
reference. -/
def SoleOriginals (L : Ledger) (p : ProcRef) (fd : Int) : Prop :=
  ∀ i r f, L.row p i = some r → L.heap r = some f → f.localFd = fd → f.fileVnode ≠ none →
    f.isDupe = false ∧ f.refcount = 1

/-- One when the vnode is `v`. -/
def vnodeWeight (v : VnodeRef) (x : Option VnodeRef) : Nat := if x = some v then 1 else 0

theorem vnodeOf_eq {r : FileRef} {f : File} (hf : L.heap r = some f) :
    L.vnodeOf r = f.fileVnode := by
  simp [vnodeOf, hf]

/-- A move that keeps the tables, and the vnodes of the files in them, keeps the slots on every
vnode. -/
theorem onVnode_congr (v : VnodeRef) (hrow : L'.row = L.row) (hnext : L'.nextProc = L.nextProc)
    (hsame : ∀ p i r, L.row p i = some r → L'.vnodeOf r = L.vnodeOf r) :
    L'.onVnode v = L.onVnode v := by
  have h₁ : L'.onVnode v = total (fun r => if L'.vnodeOf r = some v then 1 else 0) L := by
    unfold onVnode total
    rw [hrow, hnext]
  rw [h₁]
  exact total_congr fun p i r hr => by rw [hsame p i r hr]

theorem onVnode_setCount {r : FileRef} {f : File} (hf : L.heap r = some f) (n : Int)
    (v : VnodeRef) : (L.setCount r f n).onVnode v = L.onVnode v := by
  refine onVnode_congr v rfl rfl fun p i r' _ => ?_
  by_cases he : r' = r
  · subst he
    rw [vnodeOf_eq setCount_heap_self, vnodeOf_eq hf]
  · simp [vnodeOf, setCount, setFile, he]

theorem onVnode_free (hlive : L.Live) {r : FileRef} (hrefs : L.refs r = 0) (v : VnodeRef) :
    (L.setFile r none).onVnode v = L.onVnode v := by
  refine onVnode_congr v rfl rfl fun p i r' hr' => ?_
  have hne : r' ≠ r := by
    rintro rfl
    have := refs_pos hlive hr'
    omega
  simp [vnodeOf, setFile, hne]

theorem onVnode_alloc (h : L.WF) (f : File) (v : VnodeRef) :
    (L.alloc f).onVnode v = L.onVnode v := by
  refine onVnode_congr v rfl rfl fun p i r hr => ?_
  obtain ⟨g, hg, -⟩ := h.slots p i r hr
  have hne : r ≠ L.nextFile := ne_of_lt (h.lt_nextFile hg)
  simp [vnodeOf, alloc, hne]

theorem onVnode_setSlot (hp : p < L.nextProc) (i : Fin openMax) (x : Option FileRef)
    (v : VnodeRef) :
    (L.setSlot p i x).onVnode v + vnodeWeight v ((L.row p i).bind L.vnodeOf) =
      L.onVnode v + vnodeWeight v (x.bind L.vnodeOf) := by
  have h := total_setSlot (fun r => if L.vnodeOf r = some v then 1 else 0) hp i x
  have e : ∀ y : Option FileRef, slotWeight (fun r => if L.vnodeOf r = some v then 1 else 0) y =
      vnodeWeight v (y.bind L.vnodeOf) := by
    intro y
    cases y <;> rfl
  rw [e, e] at h
  exact h

theorem onVnode_clearSlot (h : L.WF) {i : Fin openMax} {r : FileRef} {f : File}
    (hr : L.row p i = some r) (hf : L.heap r = some f) (v : VnodeRef) :
    (L.setSlot p i none).onVnode v + vnodeWeight v f.fileVnode = L.onVnode v := by
  have hset := onVnode_setSlot (h.live p i r hr) i none v
  rw [hr, Option.bind_some, vnodeOf_eq hf] at hset
  exact hset

theorem addVnode_vnFile (L : Ledger) (x : Option VnodeRef) (d : Int) (v : VnodeRef) :
    (L.addVnode x d).vnFile v = L.vnFile v + d * vnodeWeight v x := by
  by_cases hx : x = some v
  · simp [addVnode, vnodeWeight, hx]
  · simp [addVnode, vnodeWeight, hx]

/-- A standard file, or a duplicate of one, is on no vnode. -/
theorem WF.fileVnode_of_std (h : L.WF) {i : Fin openMax} {r : FileRef} {f : File}
    (hr : L.row p i = some r) (hf : L.heap r = some f) (hs : f.stdFileStatus ≠ -1) :
    f.fileVnode = none := by
  obtain ⟨g, hg, hk⟩ := h.slots p i r hr
  rw [hf] at hg
  cases hg
  cases hk with
  | std h3 => exact (h.std_status h3 hf).fileVnode
  | opened ho => exact absurd (h.opened hf ho).2.stdFileStatus hs
  | dup _ hd => exact hd.fileVnode.2 hs

/-- The last slot of a file goes away with the reference on its vnode. -/
theorem Balanced.dropLast (hb : L.Balanced) (h : L.WF) {i j : Fin openMax} {r : FileRef} {f : File}
    (hr : L.row p i = some r) (hf : L.heap r = some f) (hj : 3 ≤ j.val)
    (ho : L.openFiles j = some r) (hone : f.refcount = 1) :
    ((((L.setSlot p i none).unregister j).setFile r none).addVnode f.fileVnode (-1)).Balanced := by
  intro v
  have hrefs := h.refs_last hr hf ⟨j, hj, ho⟩ hone
  have hlive := (h.clearSlot (h.live p i r hr) i).live
  have h₁ := onVnode_clearSlot h hr hf v
  have h₂ : ((((L.setSlot p i none).unregister j).setFile r none).addVnode f.fileVnode
      (-1)).onVnode v = (L.setSlot p i none).onVnode v :=
    onVnode_free (L := (L.setSlot p i none).unregister j) hlive hrefs v
  have h₃ := hb v
  have h₄ : (((L.setSlot p i none).unregister j).setFile r none).vnFile v = L.vnFile v := rfl
  rw [h₂, addVnode_vnFile, h₄]
  omega

theorem Leave.balanced (hl : Leave p L L') (h : L.WF) (hb : L.Balanced) : L'.Balanced := by
  cases hl with
  | last hr hf hj ho hone => exact hb.dropLast h hr hf hj ho hone
  | @shared i r f hr hf hs hlt =>
      intro v
      have hf' : (L.setSlot p i none).heap r = some f := hf
      have h₁ := onVnode_clearSlot h hr hf v
      have h₂ : (((L.setSlot p i none).setCount r f (f.refcount - 1)).addVnode f.fileVnode
          (-1)).onVnode v = (L.setSlot p i none).onVnode v := onVnode_setCount hf' _ v
      have h₃ := hb v
      have h₄ : ((L.setSlot p i none).setCount r f (f.refcount - 1)).vnFile v = L.vnFile v := rfl
      rw [h₂, addVnode_vnFile, h₄]
      omega

/-- Closing keeps the balance where the closed files are originals with one reference, and that
condition is kept too. -/
theorem Close.balanced (hc : Close p fd L L') (h : L.WF) (hsole : L.SoleDups p fd)
    (ho : L.SoleOriginals p fd) (hb : L.Balanced) : L'.Balanced := by
  cases hc with
  | @dup i r f hr hf hn hd =>
      intro v
      have hnone : f.fileVnode = none := by
        by_contra hv
        have := (ho i r f hr hf hn hv).1
        rw [hd] at this
        cases this
      have hrefs := refs_clearSlot_of_sole (hsole i r f hr hf hn hd)
      have hlive := (h.clearSlot (h.live p i r hr) i).live
      have h₁ := onVnode_clearSlot h hr hf v
      have h₂ := onVnode_free hlive hrefs v
      have h₃ := hb v
      have h₄ : ((L.setSlot p i none).setFile r none).vnFile v = L.vnFile v := rfl
      rw [hnone, vnodeWeight, if_neg (by simp)] at h₁
      rw [h₂, h₄]
      omega
  | last hr hf hn hj ho' hone => exact hb.dropLast h hr hf hj ho' hone
  | @shared i r f hr hf hn ho' hne =>
      exact absurd (ho i r f hr hf hn (h.opened hf ho').2.fileVnode).2 hne
  | @std i r k f g n hr hf hn h3 hk hg =>
      intro v
      have hg' : (L.setSlot p i none).heap k = some g := hg
      have h₁ := onVnode_clearSlot h hr hf v
      have h₂ := onVnode_setCount hg' n v
      have h₃ := hb v
      have h₄ : ((L.setSlot p i none).setCount k g n).vnFile v = L.vnFile v := rfl
      rw [(h.std_status h3 hf).fileVnode, vnodeWeight, if_neg (by simp)] at h₁
      rw [h₂, h₄]
      omega

/-- A closing within the condition changes no count of a file with a vnode that survives. -/
theorem Close.soleOriginals (hc : Close p fd L L') (h : L.WF) (ho : L.SoleOriginals p fd) :
    L'.SoleOriginals p fd := by
  have hsh := hc.shrinks
  intro i' r' f' hr' hf' hn' hv'
  obtain ⟨f₀, hf₀, hsame⟩ := hsh.heap r' f' hf'
  have hr₀ := hsh.row p i' r' hr'
  have hn₀ : f₀.localFd = fd := by rw [← hsame.localFd, hn']
  have hv₀ : f₀.fileVnode ≠ none := by rw [← hsame.fileVnode]; exact hv'
  obtain ⟨hd, hone⟩ := ho i' r' f₀ hr₀ hf₀ hn₀ hv₀
  refine ⟨by rw [hsame.isDupe, hd], ?_⟩
  have hcount : f' = f₀ → f'.refcount = 1 := fun e => by rw [e, hone]
  cases hc with
  | @dup i r f hr hf hn hd' =>
      have hne : r' ≠ r := by
        rintro rfl
        simp [setFile] at hf'
      have : L.heap r' = some f' := by simpa [setFile, hne, setSlot, setRow] using hf'
      exact hcount (Option.some.inj (this.symm.trans hf₀))
  | @last i j r f hr hf hn hj hoj hone' =>
      have hne : r' ≠ r := by
        rintro rfl
        simp [setFile, addVnode] at hf'
      have : L.heap r' = some f' := by
        simpa [setFile, addVnode, unregister, hne, setSlot, setRow] using hf'
      exact hcount (Option.some.inj (this.symm.trans hf₀))
  | @shared i r f hr hf hn ho' hne =>
      exact absurd (ho i r f hr hf hn (h.opened hf ho').2.fileVnode).2 hne
  | @std i r k f g n hr hf hn h3 hk hg =>
      have hne : r' ≠ k := by
        rintro rfl
        exact hv₀ (h.std_status hk hf₀).fileVnode
      have : L.heap r' = some f' := by
        simpa [setCount, setFile, hne, setSlot, setRow] using hf'
      exact hcount (Option.some.inj (this.symm.trans hf₀))

theorem Closes.balanced (hc : Closes p fd L L') (ho : L.SoleOriginals p fd) (hb : L.Balanced) :
    L'.Balanced :=
  (hc.keeps (I := fun M => M.SoleOriginals p fd ∧ M.Balanced)
    (fun _ _ hM hsole hI hcl =>
      ⟨hcl.soleOriginals hM hI.1, hcl.balanced hM hsole hI.1 hI.2⟩) ⟨ho, hb⟩).2

theorem Share.balanced (hs : Share p q L L') (h : L.WF) (hq : q < L.nextProc) (hb : L.Balanced) :
    L'.Balanced := by
  cases hs with
  | @share i r f hr hf hold =>
      intro v
      have hf' : (L.addVnode f.fileVnode 1).heap r = some f := hf
      have hset := onVnode_setSlot (L := (L.addVnode f.fileVnode 1).setCount r f (f.refcount + 1))
        hq i (some r) v
      -- the slot held nothing or a standard file, which is on no vnode
      have hfree : (L.row q i).bind
          ((L.addVnode f.fileVnode 1).setCount r f (f.refcount + 1)).vnodeOf = none := by
        cases hqi : L.row q i with
        | none => rfl
        | some k =>
            obtain ⟨g, hg, -⟩ := h.raise hf f.fileVnode |>.slots q i k hqi
            rw [Option.bind_some, vnodeOf_eq hg]
            exact ((h.raise hf f.fileVnode).std_status (hold k hqi) hg).fileVnode
      have hrow : ((L.addVnode f.fileVnode 1).setCount r f (f.refcount + 1)).row q i =
          L.row q i := rfl
      rw [hrow, hfree, Option.bind_some, vnodeOf_eq setCount_heap_self, onVnode_setCount hf',
        vnodeWeight, if_neg (by simp)] at hset
      have h₁ : (L.addVnode f.fileVnode 1).onVnode v = L.onVnode v := rfl
      have h₂ := addVnode_vnFile L f.fileVnode 1 v
      have h₃ := hb v
      have h₄ : ((((L.addVnode f.fileVnode 1).setCount r f (f.refcount + 1)).setSlot q i
          (some r)).vnFile v) = (L.addVnode f.fileVnode 1).vnFile v := rfl
      simp only at hset
      rw [h₄]
      omega

/-- Placing a file whose vnode reference has been taken. -/
theorem Placed.balanced {r : FileRef} {f : File} (hpl : Placed p r L L') (hp : p < L.nextProc)
    (hf : L.heap r = some f) (hroom : f.fileVnode ≠ none → ∃ i, L.row p i = none)
    (hb : ∀ v, L.vnFile v = L.onVnode v + vnodeWeight v f.fileVnode) : L'.Balanced := by
  intro v
  have h₁ := hb v
  cases hpl with
  | full hfull =>
      have hnone : f.fileVnode = none := by
        by_contra hv
        obtain ⟨i, hi⟩ := hroom hv
        exact hfull i hi
      rw [hnone, vnodeWeight, if_neg (by simp)] at h₁
      omega
  | @slot i hi =>
      have hset := onVnode_setSlot hp i (some r) v
      rw [hi, Option.bind_none, Option.bind_some, vnodeOf_eq hf] at hset
      have h₂ : (L.setSlot p i (some r)).vnFile v = L.vnFile v := rfl
      have h₃ : vnodeWeight v none = 0 := by simp [vnodeWeight]
      omega

theorem Dup.balanced {r : FileRef} {f : File} (hd : Dup p r f fd L L') (h : L.WF)
    (hp : p < L.nextProc) (hroom : f.fileVnode ≠ none → ∃ i, L.row p i = none)
    (hb : L.Balanced) : L'.Balanced := by
  cases hd with
  | @dup i _ hr hf hpl =>
      apply hpl.balanced hp (alloc_heap_self _ _) hroom
      intro v
      have hf' : (L.addVnode f.fileVnode 1).heap r = some f := hf
      have h₁ := onVnode_alloc (h.raise hf f.fileVnode) (dupOf f fd) v
      have h₂ := onVnode_setCount hf' (f.refcount + 1) v
      have h₃ : (L.addVnode f.fileVnode 1).onVnode v = L.onVnode v := rfl
      have h₄ := addVnode_vnFile L f.fileVnode 1 v
      have h₅ := hb v
      have h₆ : (((L.addVnode f.fileVnode 1).setCount r f (f.refcount + 1)).alloc
          (dupOf f fd)).vnFile v = (L.addVnode f.fileVnode 1).vnFile v := rfl
      have h₇ : vnodeWeight v (dupOf f fd).fileVnode = vnodeWeight v f.fileVnode := rfl
      omega

theorem Open.balanced {f : File} (ho : Open p f L L') (h : L.WF) (hp : p < L.nextProc)
    (hfree : ∃ i, L.row p i = none) (hb : L.Balanced) : L'.Balanced := by
  cases ho with
  | @opened j _ hnew hj hpl =>
      apply hpl.balanced (f := f) hp (alloc_heap_self _ _) (fun _ => hfree)
      intro v
      have h₁ : (((L.addVnode f.fileVnode 1).alloc f).register j L.nextFile).onVnode v =
          L.onVnode v := onVnode_alloc h f v
      have h₄ := addVnode_vnFile L f.fileVnode 1 v
      have h₅ := hb v
      have h₆ : (((L.addVnode f.fileVnode 1).alloc f).register j L.nextFile).vnFile v =
          (L.addVnode f.fileVnode 1).vnFile v := rfl
      omega

theorem Balanced.addRow (hb : L.Balanced) (h : L.WF) : L.addRow.Balanced := by
  intro v
  have hsame : L.addRow.onVnode v = L.onVnode v := by
    apply h.total_addRow_of_std
    intro k hk
    obtain ⟨f, hf, hstd⟩ := h.std k hk
    have : L.vnodeOf k = none := by rw [vnodeOf_eq hf, hstd.fileVnode]
    have h' : L.addRow.vnodeOf k = none := this
    simp [h']
  rw [hsame]
  exact hb v

theorem Gone.balanced (hg : Gone p L L') (hb : L.Balanced) : L'.Balanced := by
  obtain ⟨L₁, hl, hstd, rfl⟩ := hg.ends
  have hb₁ : L₁.Balanced := hl.keeps (fun M M' hwf hM hlv => hlv.balanced hwf hM) hb
  intro v
  have hsame : (L₁.dropRow p).onVnode v = L₁.onVnode v := by
    apply total_dropRow_of_zero
    intro i r hr
    obtain ⟨f, hf, -⟩ := hl.wf.slots p i r hr
    have hnone := hl.wf.fileVnode_of_std hr hf (hstd i r f hr hf)
    have h' : (L₁.dropRow p).vnodeOf r = none := by
      rw [vnodeOf_eq (L := L₁.dropRow p) hf, hnone]
    simp [h']
  rw [hsame]
  exact hb₁ v

end Os161.Vfs.Ledger

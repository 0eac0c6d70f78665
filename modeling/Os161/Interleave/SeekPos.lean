import Os161.Interleave.Transfers
import Os161.Lib.Ranges

set_option autoImplicit false

/-!
# Seek positions under interleaved transfers

The transfers at one seek position are one after another, without a gap or an overlap, as long as
a call that has read the position stores the new one before another call reads it. The
`file_lock` sees to that between calls through one `struct file` (`inOrder_of_unshared`); between a
file and its duplicates nothing does, and `inOrder_of_orderly` has it as a condition.
-/

namespace Os161.Transfers

open Os161.Lib.Ranges
open Os161.Lib.Runs
open Os161.Main
open Os161.Syscall

/-! ## Transfers in order -/

/-- The transfers at the seek position `x`, in the order of the stores. -/
def Machine.on (m : Machine) (x : CellRef) : List Transfer := m.log.filter fun t => t.cell == x

theorem Machine.on_append {m m' : Machine} {t : Transfer} (h : m'.log = m.log ++ [t])
    (x : CellRef) : m'.on x = if t.cell = x then m.on x ++ [t] else m.on x := by
  by_cases hx : t.cell = x
  · simp [Machine.on, h, hx]
  · simp [Machine.on, h, hx]

/-- The transfers at every seek position are one after another: their ranges are consecutive from
where it was in `s` to where it is now and pairwise disjoint, and it has advanced by the sum of
what the calls return. -/
structure InOrder (s : Kernel) (m : Machine) : Prop where
  consecutive : ∀ x v₀, s.cells x = some v₀ → ∃ v, m.kernel.cells x = some v ∧
    Consecutive Transfer.start Transfer.count v₀ (m.on x) v
  disjoint : ∀ x v₀, s.cells x = some v₀ → (m.on x).Pairwise fun t t' =>
    Disjoint (Set.Ico t.start (t.start + t.count)) (Set.Ico t'.start (t'.start + t'.count))
  total : ∀ x v₀, s.cells x = some v₀ →
    m.kernel.cells x = some (v₀ + ((m.on x).map Transfer.count).sum)

/-- The vnode operation has moved the offset by what it has transferred, as `uiomove` does. -/
structure Moved (c : Call) (off : Int) : Prop where
  offset : c.uioOffset = off + c.count
  count : 0 ≤ c.count

/-- A vnode operation that succeeds has moved the offset. -/
def MovesOffset (m : Machine) (a : Act) : Prop :=
  ∀ c r x off, a.move = .tick → m.pcs a.caller = .vop c r x off →
    afterVop r x off c = .store c r x off → Moved c off

/-- Besides, a seek position is read only when no call through another `struct file` with the same
seek position has read it and not yet stored it. -/
structure Orderly (m : Machine) (a : Act) : Prop where
  moved : MovesOffset m a
  alone : ∀ c r f x, a.move = .tick → m.pcs a.caller = .load c r → m.kernel.heap r = some f →
    f.seekPos = some x → ∀ q r' off, (m.pcs q).loaded = some (x, off) →
    (m.pcs q).file = some r' → r' = r

/-- What holds in every state of an orderly run that began in `s`. -/
structure Inv (s : Kernel) (m : Machine) : Prop where
  heap : m.kernel.heap = s.heap
  /-- A process in the part of its call between taking and releasing a `file_lock` holds it. -/
  locked : ∀ p r, (m.pcs p).file = some r → m.kernel.held (.file r) = some p
  cell : ∀ p x off, (m.pcs p).loaded = some (x, off) →
    ∃ r f, (m.pcs p).file = some r ∧ s.heap r = some f ∧ f.seekPos = some x
  current : ∀ p x off, (m.pcs p).loaded = some (x, off) → m.kernel.cells x = some off
  alone : ∀ p q x off off', (m.pcs p).loaded = some (x, off) →
    (m.pcs q).loaded = some (x, off') → p = q
  moved : ∀ p c r x off, m.pcs p = .store c r x off → Moved c off
  chain : ∀ x v₀, s.cells x = some v₀ → ∃ v, m.kernel.cells x = some v ∧
    Consecutive Transfer.start Transfer.count v₀ (m.on x) v
  counts : ∀ t ∈ m.log, 0 ≤ t.count

section Invariant

variable {s : Kernel} {m m₁ : Machine} {p : ProcRef} {pc : Pc}

/-- Steps that store nothing: what has to be seen of the new program point. -/
theorem Inv.goto (h : Inv s m) (hpcs : m₁.pcs = m.pcs) (hheap : m₁.kernel.heap = m.kernel.heap)
    (hcells : m₁.kernel.cells = m.kernel.cells) (hlog : m₁.log = m.log)
    (hheld : ∀ q r, q ≠ p → (m.pcs q).file = some r → m₁.kernel.held (.file r) = some q)
    (hfile : ∀ r, pc.file = some r → m₁.kernel.held (.file r) = some p)
    (hcell : ∀ x off, pc.loaded = some (x, off) → ∃ r f, pc.file = some r ∧ s.heap r = some f ∧
      f.seekPos = some x)
    (hcurrent : ∀ x off, pc.loaded = some (x, off) → m.kernel.cells x = some off)
    (halone : ∀ q x off off', q ≠ p → pc.loaded = some (x, off) →
      (m.pcs q).loaded ≠ some (x, off'))
    (hmoved : ∀ c r x off, pc = .store c r x off → Moved c off) : Inv s (m₁.goto p pc) := by
  -- the program point of `p` is new, the others are as they were
  have hself := m₁.goto_pcs_self p pc
  have hother : ∀ q, q ≠ p → (m₁.goto p pc).pcs q = m.pcs q := by
    intro q hq
    rw [m₁.goto_pcs_of_ne hq, hpcs]
  have hcells' : (m₁.goto p pc).kernel.cells = m.kernel.cells := hcells
  refine
    { heap := hheap.trans h.heap, locked := fun q r hq => ?_, cell := fun q x off hq => ?_
      current := fun q x off hq => ?_, alone := fun q q' x off off' hq hq' => ?_
      moved := fun q c r x off hq => ?_, chain := fun x v₀ hx => ?_, counts := fun t ht => ?_ }
  · by_cases hqp : q = p
    · subst hqp
      rw [hself] at hq
      exact hfile r hq
    · rw [hother q hqp] at hq
      exact hheld q r hqp hq
  · by_cases hqp : q = p
    · subst hqp
      rw [hself] at hq ⊢
      exact hcell x off hq
    · rw [hother q hqp] at hq ⊢
      exact h.cell q x off hq
  · rw [hcells']
    by_cases hqp : q = p
    · subst hqp
      rw [hself] at hq
      exact hcurrent x off hq
    · rw [hother q hqp] at hq
      exact h.current q x off hq
  · -- both new, one new and one old, or both old
    by_cases hqp : q = p
    · by_cases hqp' : q' = p
      · rw [hqp, hqp']
      · rw [hqp, hself] at hq
        rw [hother q' hqp'] at hq'
        exact absurd hq' (halone q' x off off' hqp' hq)
    · rw [hother q hqp] at hq
      by_cases hqp' : q' = p
      · rw [hqp', hself] at hq'
        exact absurd hq (halone q x off' off hqp hq')
      · rw [hother q' hqp'] at hq'
        exact h.alone q q' x off off' hq hq'
  · by_cases hqp : q = p
    · subst hqp
      rw [hself] at hq
      exact hmoved c r x off hq
    · rw [hother q hqp] at hq
      exact h.moved q c r x off hq
  · obtain ⟨v, hv, hc⟩ := h.chain x v₀ hx
    refine ⟨v, by rw [hcells']; exact hv, ?_⟩
    have e : (m₁.goto p pc).on x = m.on x := by simp only [Machine.on, Machine.goto, hlog]
    rw [e]
    exact hc
  · have e : (m₁.goto p pc).log = m.log := hlog
    rw [e] at ht
    exact h.counts t ht

/-- Steps to a program point at which no seek position is in use. -/
theorem Inv.goto_idle (h : Inv s m) (hpcs : m₁.pcs = m.pcs)
    (hheap : m₁.kernel.heap = m.kernel.heap) (hcells : m₁.kernel.cells = m.kernel.cells)
    (hlog : m₁.log = m.log)
    (hheld : ∀ q r, q ≠ p → (m.pcs q).file = some r → m₁.kernel.held (.file r) = some q)
    (hfile : ∀ r, pc.file = some r → m₁.kernel.held (.file r) = some p)
    (hidle : pc.loaded = none) : Inv s (m₁.goto p pc) := by
  refine h.goto hpcs hheap hcells hlog hheld hfile ?_ ?_ ?_ ?_
  · intro x off hx
    rw [hidle] at hx
    cases hx
  · intro x off hx
    rw [hidle] at hx
    cases hx
  · intro q x off off' _ hx
    rw [hidle] at hx
    cases hx
  · rintro c r x off rfl
    cases hidle

/-- A step that only touches the `ops_lock`, if any. -/
theorem Inv.quiet {op : Op} (h : Inv s m)
    (hop : op = .nop ∨ op = .take (.ops p) ∨ op = .give (.ops p))
    (hfile : pc.file = (m.pcs p).file ∨ pc.file = none) (hidle : pc.loaded = none)
    (happly : op.apply p m = some m₁) : Inv s (m₁.goto p pc) := by
  -- none of the three operations is on a `file_lock`
  have hsame : m₁.pcs = m.pcs ∧ m₁.kernel.heap = m.kernel.heap ∧
      m₁.kernel.cells = m.kernel.cells ∧ m₁.log = m.log ∧
      ∀ r, m₁.kernel.held (.file r) = m.kernel.held (.file r) := by
    rcases hop with rfl | rfl | rfl
    · cases happly
      exact ⟨rfl, rfl, rfl, rfl, fun _ => rfl⟩
    · simp only [Op.apply] at happly
      split_ifs at happly
      cases happly
      exact ⟨rfl, rfl, rfl, rfl, fun r => by simp⟩
    · simp only [Op.apply] at happly
      split_ifs at happly
      cases happly
      exact ⟨rfl, rfl, rfl, rfl, fun r => by simp⟩
  obtain ⟨hpcs, hheap, hcells, hlog, hheld⟩ := hsame
  refine h.goto_idle hpcs hheap hcells hlog (fun q r _ hq => ?_) (fun r hr => ?_) hidle
  · rw [hheld]
    exact h.locked q r hq
  · rw [hheld]
    rcases hfile with hfile | hfile
    · exact h.locked p r (hfile.symm.trans hr)
    · rw [hfile] at hr
      cases hr

/-- `lock_acquire(f->file_lock)`: the lock was free, so no other process is in a part that needs
it. -/
theorem Inv.lock {r : FileRef} (h : Inv s m) (hfile : pc.file = some r) (hidle : pc.loaded = none)
    (happly : (Op.take (.file r)).apply p m = some m₁) : Inv s (m₁.goto p pc) := by
  simp only [Op.apply] at happly
  split_ifs at happly with hfree
  cases happly
  refine h.goto_idle rfl rfl rfl rfl (fun q r' _ hq => ?_) (fun r' hr' => ?_) hidle
  · have hlocked := h.locked q r' hq
    have hne : r' ≠ r := by
      rintro rfl
      rw [hfree] at hlocked
      cases hlocked
    simpa [hne] using hlocked
  · rw [hfile] at hr'
    cases hr'
    exact Function.update_self _ _ _

/-- `lock_release(f->file_lock)`: the caller held the lock, so no other process needs it. -/
theorem Inv.unlock {r : FileRef} (h : Inv s m) (hfile : pc.file = none) (hidle : pc.loaded = none)
    (happly : (Op.give (.file r)).apply p m = some m₁) : Inv s (m₁.goto p pc) := by
  simp only [Op.apply] at happly
  split_ifs at happly with hheld
  cases happly
  refine h.goto_idle rfl rfl rfl rfl (fun q r' hqp hq => ?_) (fun r' hr' => ?_) hidle
  · have hlocked := h.locked q r' hq
    have hne : r' ≠ r := by
      rintro rfl
      rw [hheld] at hlocked
      exact hqp (Option.some.inj hlocked).symm
    simpa [hne] using hlocked
  · rw [hfile] at hr'
    cases hr'

/-- The read of `*seek_pos`: the guard keeps out the calls through other files with this seek
position, and the `file_lock` those through the same file. -/
theorem Inv.load {c : Call} {r : FileRef} {f : File} {x : CellRef} {off : Int} (h : Inv s m)
    (hpc : m.pcs p = .load c r) (hf : m.kernel.heap r = some f) (hx : f.seekPos = some x)
    (hoff : m.kernel.cells x = some off)
    (hguard : ∀ q r' off, (m.pcs q).loaded = some (x, off) → (m.pcs q).file = some r' → r' = r) :
    Inv s (m.goto p (.vop c r x off)) := by
  have hlocked : m.kernel.held (.file r) = some p := h.locked p r (by rw [hpc]; rfl)
  refine h.goto rfl rfl rfl rfl (fun q r' _ hq => h.locked q r' hq) (fun r' hr' => ?_)
    (fun x' off' hl => ?_) (fun x' off' hl => ?_) (fun q x' off' off'' hqp hl hq => ?_)
    fun c' r' x' off' hc => ?_
  · cases hr'
    exact hlocked
  · cases hl
    refine ⟨r, f, rfl, ?_, hx⟩
    rw [← h.heap]
    exact hf
  · cases hl
    exact hoff
  · -- two calls at the same position would be through one file, and both hold its lock
    cases hl
    obtain ⟨r', f', hr', -, -⟩ := h.cell q x off'' hq
    have hq' := h.locked q r' hr'
    rw [hguard q r' off'' hq hr', hlocked] at hq'
    exact hqp (Option.some.inj hq').symm
  · cases hc

/-- The vnode operation. -/
theorem Inv.transfer {c : Call} {r : FileRef} {x : CellRef} {off : Int} (h : Inv s m)
    (hpc : m.pcs p = .vop c r x off) (hmoved : Moved c off) :
    Inv s (m.goto p (.store c r x off)) := by
  have hl : (m.pcs p).loaded = some (x, off) := by rw [hpc]; rfl
  refine h.goto rfl rfl rfl rfl (fun q r' _ hq => h.locked q r' hq) (fun r' hr' => ?_)
    (fun x' off' hl' => ?_) (fun x' off' hl' => ?_) (fun q x' off' off'' hqp hl' hq => ?_)
    fun c' r' x' off' hc => ?_
  · cases hr'
    exact h.locked p r (by rw [hpc]; rfl)
  · cases hl'
    obtain ⟨r', f, hr', hf, hx⟩ := h.cell p x off hl
    rw [hpc] at hr'
    cases hr'
    exact ⟨r, f, rfl, hf, hx⟩
  · cases hl'
    exact h.current p x off hl
  · cases hl'
    exact hqp (h.alone p q x off off'' hl hq).symm
  · cases hc
    exact hmoved

/-- The store of `*seek_pos`: it is still what the call has read, and what is stored is the end of
the range it has transferred. -/
theorem Inv.store {c : Call} {r : FileRef} {x : CellRef} {off : Int} (h : Inv s m)
    (hpc : m.pcs p = .store c r x off)
    (happly : (Op.store { cell := x, start := off, count := c.count } c.uioOffset).apply p m =
      some m₁) : Inv s (m₁.goto p (.unlock r c.count)) := by
  have hl : (m.pcs p).loaded = some (x, off) := by rw [hpc]; rfl
  have hcur := h.current p x off hl
  obtain ⟨hoffset, hcount⟩ := h.moved p c r x off hpc
  obtain ⟨-, -, rfl⟩ := Option.map_eq_some_iff.1 happly
  have hother : ∀ q, q ≠ p → Function.update m.pcs p (.unlock r c.count) q = m.pcs q := fun q hq =>
    Function.update_of_ne hq _ _
  -- no other process has read this seek position
  have hfree : ∀ q x' off', q ≠ p → (m.pcs q).loaded = some (x', off') → x' ≠ x := by
    rintro q x' off' hqp hq rfl
    exact hqp (h.alone p q _ off off' hl hq).symm
  have hidle : ∀ q x' off',
      (Function.update m.pcs p (.unlock r c.count) q).loaded = some (x', off') →
      q ≠ p ∧ (m.pcs q).loaded = some (x', off') := by
    intro q x' off' hq
    by_cases hqp : q = p
    · rw [hqp, Function.update_self] at hq
      cases hq
    · rw [hother q hqp] at hq
      exact ⟨hqp, hq⟩
  refine
    { heap := h.heap, locked := fun q r' hq => ?_, cell := fun q x' off' hq => ?_
      current := fun q x' off' hq => ?_, alone := fun q q' x' off₁ off₂ hq hq' => ?_
      moved := fun q c' r' x' off' hq => ?_, chain := fun x' v₀ hx' => ?_, counts := fun t ht => ?_ }
  · simp only [Machine.goto] at hq ⊢
    by_cases hqp : q = p
    · rw [hqp, Function.update_self] at hq
      cases hq
      rw [hqp]
      exact h.locked p r (by rw [hpc]; rfl)
    · rw [hother q hqp] at hq
      exact h.locked q r' hq
  · simp only [Machine.goto] at hq ⊢
    obtain ⟨hqp, hq⟩ := hidle q x' off' hq
    rw [hother q hqp]
    exact h.cell q x' off' hq
  · simp only [Machine.goto] at hq ⊢
    obtain ⟨hqp, hq⟩ := hidle q x' off' hq
    rw [Function.update_of_ne (hfree q x' off' hqp hq)]
    exact h.current q x' off' hq
  · obtain ⟨-, hq⟩ := hidle q x' off₁ hq
    obtain ⟨-, hq'⟩ := hidle q' x' off₂ hq'
    exact h.alone q q' x' off₁ off₂ hq hq'
  · simp only [Machine.goto] at hq
    by_cases hqp : q = p
    · rw [hqp, Function.update_self] at hq
      cases hq
    · rw [hother q hqp] at hq
      exact h.moved q c' r' x' off' hq
  · obtain ⟨v, hv, hc⟩ := h.chain x' v₀ hx'
    -- the chain at `x` grows by this transfer, the others stay
    by_cases hxx : x' = x
    · subst hxx
      rw [hcur] at hv
      cases hv
      refine ⟨c.uioOffset, Function.update_self _ _ _, ?_⟩
      rw [Machine.on_append (m := m) (t := ⟨x', off, c.count⟩) rfl, if_pos rfl, hoffset]
      exact hc.append rfl
    · refine ⟨v, (Function.update_of_ne hxx _ _).trans hv, ?_⟩
      rw [Machine.on_append (m := m) (t := ⟨x, off, c.count⟩) rfl, if_neg (Ne.symm hxx)]
      exact hc
  · rcases List.mem_append.1 ht with ht | ht
    · exact h.counts t ht
    · obtain rfl := List.mem_singleton.1 ht
      exact hcount

theorem Inv.step {a : Act} {m' : Machine} (h : Inv s m) (hok : Orderly m a) (hst : step m a m') :
    Inv s m' := by
  rcases step_cases hst with ⟨pc, hfile, hidle, rfl, -⟩ | ⟨op, pc, m₁, hmove, hdoes, happly, rfl⟩
  · refine h.goto_idle rfl rfl rfl rfl (fun q r _ hq => h.locked q r hq) (fun r hr => ?_) hidle
    rw [hfile] at hr
    cases hr
  -- the program point is needed as it was, to use the guard
  generalize hpc : m.pcs a.caller = pc₀ at hdoes
  cases hdoes with
  | quiet hop hfile hidle =>
      rw [← hpc] at hfile
      exact h.quiet hop hfile hidle happly
  | lock hfile hidle => exact h.lock hfile hidle happly
  | unlock hfile hidle => exact h.unlock hfile hidle happly
  | @load c r f x off hf hx hoff =>
      cases happly
      exact h.load hpc hf hx hoff fun q r' off' hq hr' =>
        hok.alone c r f x hmove hpc hf hx q r' off' hq hr'
  | @transfer c r x off hvop =>
      cases happly
      exact h.transfer hpc (hok.moved c r x off hmove hpc hvop)
  | store => exact h.store hpc happly

theorem inv_start (s : Kernel) : Inv s (start s) where
  heap := rfl
  locked p r h := by cases h
  cell p x off h := by cases h
  current p x off h := by cases h
  alone p q x off off' h := by cases h
  moved p c r x off h := by cases h
  chain x v₀ hx := ⟨v₀, hx, rfl⟩
  counts t ht := absurd ht List.not_mem_nil

theorem Inv.inOrder (h : Inv s m) : InOrder s m := by
  refine ⟨h.chain, fun x v₀ hx => ?_, fun x v₀ hx => ?_⟩
  · obtain ⟨v, -, hc⟩ := h.chain x v₀ hx
    exact hc.disjoint fun t ht => h.counts t (List.mem_filter.1 ht).1
  · obtain ⟨v, hv, hc⟩ := h.chain x v₀ hx
    rw [hv, hc.total]

/-- In a run in which no two calls through different files are between the read and the store of
one seek position, the transfers at every seek position are one after another. -/
theorem inOrder_of_orderly (h : Reach step Orderly (start s) m) : InOrder s m := by
  have hinv : Inv s m := h.invariant (fun _ _ _ ht ha hst => ht.step ha hst) (inv_start s)
  exact hinv.inOrder

/-- Where every seek position belongs to one `struct file`, as after `open` and `fork`, the
`file_lock` is enough. -/
theorem inOrder_of_unshared
    (hs : ∀ r r' f f' x, s.heap r = some f → s.heap r' = some f' → f.seekPos = some x →
      f'.seekPos = some x → r = r')
    (h : Reach step MovesOffset (start s) m) : InOrder s m := by
  have hinv : Inv s m := by
    refine h.invariant (fun t a u ht ha hst => ht.step ⟨ha, ?_⟩ hst) (inv_start s)
    -- the call that has read the position got it from a file with this cell
    intro c r f x _ _ hf hx q r' off hq hr'
    obtain ⟨r'', f', hr'', hf', hx'⟩ := ht.cell q x off hq
    have e : r'' = r' := Option.some.inj (hr''.symm.trans hr')
    subst e
    rw [ht.heap] at hf
    exact hs r'' r f' f x hf' hf hx' hx
  exact hinv.inOrder

end Invariant

/-! ## Runs of two processes -/

/-- `Orderly`, computed for the processes below `n`. -/
def orderly (n : Nat) (m : Machine) (a : Act) : Bool :=
  decide (a.caller < n) &&
    match m.pcs a.caller with
    | .load _ r => (m.kernel.heap r).all fun f => f.seekPos.all fun x => (List.range n).all fun q =>
        (m.pcs q).loaded.all fun y => y.1 != x || (m.pcs q).file == some r
    | .vop c _ _ off => c.uioOffset == off + c.count && decide (0 ≤ c.count)
    | _ => true

theorem movesOffset_of_orderly {n : Nat} {m : Machine} {a : Act} (h : orderly n m a = true) :
    MovesOffset m a := by
  intro c r x off _ hpc _
  obtain ⟨-, h⟩ := Bool.and_eq_true_iff.1 h
  rw [hpc] at h
  obtain ⟨h₁, h₂⟩ := Bool.and_eq_true_iff.1 h
  exact ⟨by simpa using h₁, of_decide_eq_true h₂⟩

/-- Only the processes that make moves are in a call. -/
theorem loaded_of_reach {n : Nat} {s : Kernel} {m : Machine}
    (h : Reach step (fun _ a => a.caller < n) (start s) m) {q : ProcRef} (hq : n ≤ q) :
    (m.pcs q).loaded = none := by
  refine h.invariant (I := fun m => (m.pcs q).loaded = none) (fun t a u ht ha hst => ?_) rfl
  have hne : q ≠ a.caller := by
    intro e
    rw [e] at hq
    exact absurd ha (not_lt.2 hq)
  rcases step_cases hst with ⟨pc, -, -, rfl, -⟩ | ⟨op, pc, m₁, -, -, happly, rfl⟩
  · rw [t.goto_pcs_of_ne hne]
    exact ht
  · rw [m₁.goto_pcs_of_ne hne, Op.apply_pcs happly]
    exact ht

theorem orderly_sound {n : Nat} {s : Kernel} {m : Machine} {a : Act}
    (hm : Reach step (fun _ a => a.caller < n) (start s) m) (h : orderly n m a = true) :
    Orderly m a := by
  refine ⟨movesOffset_of_orderly h, fun c r f x _ hpc hf hx q r' off hq hr' => ?_⟩
  obtain ⟨-, h⟩ := Bool.and_eq_true_iff.1 h
  simp only [hpc, hf, hx, Option.all_some] at h
  -- a process that makes no moves has read nothing
  have hlt : q < n := by
    by_contra hc
    rw [loaded_of_reach hm (not_lt.1 hc)] at hq
    cases hq
  have h₁ := List.all_eq_true.1 h q (List.mem_range.2 hlt)
  simpa [hq, hr'] using h₁

/-- A file is opened for reading and writing and duplicated, and a child inherits both
descriptors. -/
def sharedRun : List Action :=
  startOne ++ [⟨1, .openFile (some 1) 2 (openOk 7)⟩, ⟨1, .dup2 3 5 true⟩, ⟨1, .fork forkOk⟩]

/-- A `read` of four bytes at the offset `off`. -/
def readFour (fd off : Int) : Call :=
  .read fd 4 { kmalloc := true, getch := fun _ => 10, copyoutstr := fun _ => 0, vopRead := 0
               uioResid := 0, uioOffset := off + 4, copyout := 0 }

/-- A `write` of four bytes at the offset `off`. -/
def writeFour (fd off : Int) : Call :=
  .write fd 4 { kmalloc := true, copyinstr := 0, strlenFreed := 0, copyin := 0, vopWrite := 0
                uioResid := 0, uioOffset := off + 4 }

/-- The process begins a call and makes `n` steps of it. -/
def beginCall (p : ProcRef) (c : Call) (n : Nat) : List Act :=
  ⟨p, .call c⟩ :: List.replicate n ⟨p, .tick⟩

/-- The parent reads through descriptor 3; the child begins a `write` through the same file and
waits for its lock, writes, and reads through the duplicate. -/
def orderlyActs : List Act :=
  beginCall 1 (readFour 3 0) 7 ++ beginCall 2 (writeFour 3 4) 2 ++ List.replicate 2 ⟨1, .tick⟩ ++
    List.replicate 7 ⟨2, .tick⟩ ++ beginCall 2 (readFour 5 8) 9

theorem inOrder_orderlyActs : ∃ s m, execAll boot sharedRun = some s ∧
    runChecked exec (orderly 3) (start s) orderlyActs = some m ∧ m.log.length = 3 ∧
    InOrder s m := by
  have hrun : ((execAll boot sharedRun).any fun s =>
      (runChecked exec (orderly 3) (start s) orderlyActs).any fun m => m.log.length == 3) =
      true := by decide +kernel
  obtain ⟨s, hs, hrun⟩ := (Option.any_eq_true _ _).1 hrun
  obtain ⟨m, hm, hlen⟩ := (Option.any_eq_true _ _).1 hrun
  -- that the others make no moves is kept beside the guard
  have hreach : Reach step (fun m a => Orderly m a ∧ a.caller < 3) (start s) m := by
    refine reach_of_runChecked (fun _ _ _ h => h) (fun t a ht hc => ?_) orderlyActs .refl hm
    refine ⟨orderly_sound (ht.mono fun _ _ ha => ha.2) hc, ?_⟩
    exact of_decide_eq_true (Bool.and_eq_true_iff.1 hc).1
  exact ⟨s, m, hs, hm, by simpa using hlen, inOrder_of_orderly (hreach.mono fun _ _ ha => ha.1)⟩

/-- Parent and child share the file through descriptor 3. -/
def inheritedRun : List Action :=
  startOne ++ [⟨1, .openFile (some 1) 2 (openOk 7)⟩, ⟨1, .fork forkOk⟩]

/-- The child waits for the lock while the parent reads. -/
def inheritedActs : List Act :=
  beginCall 1 (readFour 3 0) 7 ++ beginCall 2 (writeFour 3 4) 2 ++ List.replicate 2 ⟨1, .tick⟩ ++
    List.replicate 7 ⟨2, .tick⟩

theorem inOrder_inheritedActs : ∃ s m, execChecked closesSoleDups boot inheritedRun = some s ∧
    runChecked exec (orderly 3) (start s) inheritedActs = some m ∧ m.log.length = 2 ∧
    InOrder s m := by
  have hrun : ((execChecked closesSoleDups boot inheritedRun).any fun s =>
      (List.range s.nextFile).all (fun r => (s.heap r).all fun f => f.seekPos.isNone || r == 3) &&
      (runChecked exec (orderly 3) (start s) inheritedActs).any fun m => m.log.length == 2) =
      true := by decide +kernel
  obtain ⟨s, hs, hrun⟩ := (Option.any_eq_true _ _).1 hrun
  obtain ⟨hall, hrun⟩ := Bool.and_eq_true_iff.1 hrun
  obtain ⟨m, hm, hlen⟩ := (Option.any_eq_true _ _).1 hrun
  have hwf : (Vfs.Ledger.of s).WF := wf_of_reach (fun _ _ ha => ha) (reach_of_execChecked
    (fun t a ht => closesSoleDups_sound (wf_of_reach (fun _ _ ha => ha) ht)) inheritedRun .refl hs)
  -- only the file that has been opened has a seek position
  have hone : ∀ r f x, s.heap r = some f → f.seekPos = some x → r = 3 := by
    intro r f x hf hx
    have hr := List.all_eq_true.1 hall r (List.mem_range.2 (hwf.lt_nextFile hf))
    simpa [hf, hx] using hr
  refine ⟨s, m, hs, hm, by simpa using hlen, inOrder_of_unshared ?_ ?_⟩
  · intro r r' f f' x hf hf' hx hx'
    rw [hone r f x hf hx, hone r' f' x hf' hx']
  · exact reach_of_runChecked (fun _ _ _ h => h) (fun _ _ _ => movesOffset_of_orderly) _ .refl hm

/-- The parent reads through descriptor 3 and the child through its duplicate 5: both read the seek
position before either stores it. -/
def racingActs : List Act :=
  beginCall 1 (readFour 3 0) 7 ++ beginCall 2 (readFour 5 0) 9 ++ List.replicate 2 ⟨1, .tick⟩

theorem not_inOrder_of_movesOffset : ¬ ∀ s m, Reach Main.step anyStep boot s →
    Reach step MovesOffset (start s) m → InOrder s m := by
  intro h
  have hrun : ((execAll boot sharedRun).any fun s => s.cells 3 == some 0 &&
      (runChecked exec (fun m a => (orderly 3 m a || (m.pcs a.caller).loaded.isNone)) (start s)
        racingActs).any fun m =>
        m.kernel.cells 3 == some 4 && ((m.on 3).map Transfer.count).sum == 8) = true := by
    decide +kernel
  obtain ⟨s, hs, hrun⟩ := (Option.any_eq_true _ _).1 hrun
  obtain ⟨hcell, hrun⟩ := Bool.and_eq_true_iff.1 hrun
  obtain ⟨m, hm, hbad⟩ := (Option.any_eq_true _ _).1 hrun
  obtain ⟨hpos, hsum⟩ := Bool.and_eq_true_iff.1 hbad
  have hreach : Reach step MovesOffset (start s) m := by
    refine reach_of_runChecked (fun _ _ _ h => h) (fun t a _ hc => ?_) racingActs .refl hm
    rcases Bool.or_eq_true_iff.1 hc with hc | hc
    · exact movesOffset_of_orderly hc
    · intro c r x off _ hpc _
      simp [hpc, Pc.loaded] at hc
  -- two transfers of four bytes, and the position has advanced by four
  have htotal := (h s m (reach_of_execAll sharedRun .refl hs) hreach).total 3 0 (by simpa using hcell)
  rw [show m.kernel.cells 3 = some 4 by simpa using hpos,
    show ((m.on 3).map Transfer.count).sum = 8 by simpa using hsum] at htotal
  exact absurd htotal (by decide)

end Os161.Transfers

import Os161.Interleave.Records

set_option autoImplicit false

/-!
# Delivery of exit statuses

A parent that sleeps in `waitpid` until its child exits is given the status of the child, and the
status is taken out of the table. The branch for a child that has exited before returns the pid
without either. A call that comes back to a child whose status is taken fails, unless the child has
not left the process table yet: then the caller goes to sleep for good.
-/

namespace Os161.Interleave

open Os161.Lib.Runs
open Os161.Lib.Slots
open Os161.Proc
open Os161.Syscall

/-! ## The property -/

/-- The call has returned the pid it was called with. -/
def Done.returns (d : Done) : Prop := d.result.err = 0 ∧ d.result.retval = d.wait.pid

/-- The calls that had returned when the call `w` began, the first one first. -/
def before (m : Machine) (w : Wait) : List Done := m.history.waits.reverse.take w.start

/-- The `waitpid` that a process is in. -/
def Pc.wait : Pc → Option Wait
  | .waitOwn w | .waitSearch w | .waitFetch w _ | .waitNull w _ | .waitExited w _ | .waitInner w _
  | .waitCheck w _ | .waitFailInner w _ | .waitPassInner w _ | .waitLoop w | .waitSleep w
  | .waitAsleep w | .waitWoken w | .waitGet w | .waitCopy w _ | .waitReturn w _ => some w
  | _ => none

/-- The points of a `waitpid` that is going to fail without waiting for another process. -/
def Pc.failing : Pc → Prop
  | .waitOwn _ | .waitSearch _ | .waitFetch _ none | .waitNull _ none => True
  | .waitReturn _ r => r.err ≠ 0
  | _ => False

/-- The first `waitpid` of a parent that returns the pid of its child has stored the status of the
child and taken it out of the table, and every later one on that child fails. -/
structure Delivered (m : Machine) : Prop where
  first : ∀ d ∈ m.history.waits, (d.wait.pid, d.caller) ∈ m.history.family → d.returns →
    (∀ d' ∈ before m d.wait, d'.caller = d.caller → d'.wait.pid = d.wait.pid → ¬ d'.returns) →
    (d.wait.status = .valid → ∃ v, d.result.stored = some v ∧
      (∃ l ∈ m.history.exits, l.pid = d.wait.pid) ∧
      ∀ l ∈ m.history.exits, l.pid = d.wait.pid → FitsIn30 l.code →
        wifexited v = true ∧ wexitstatus v = l.code) ∧
    ∀ i e, m.ptable.activeExitCodes i = some e → e.pid ≠ d.wait.pid
  later : ∀ d ∈ m.history.waits, (d.wait.pid, d.caller) ∈ m.history.family → d.returns →
    ∀ d' ∈ m.history.waits, d'.wait.pid = d.wait.pid → d ∈ before m d'.wait → d'.result.err ≠ 0
  /-- A later call that is still under way is at a point from which it fails. -/
  failing : ∀ d ∈ m.history.waits, (d.wait.pid, d.caller) ∈ m.history.family → d.returns →
    ∀ q Q w, m.tasks q = some Q → Q.pc.wait = some w → w.pid = d.wait.pid → d ∈ before m w →
      Q.pc.failing

/-- The parent of the process `c` has collected its status. -/
def Reaped (m : Machine) (c : Int) : Prop :=
  ∃ n, (c, n) ∈ m.history.family ∧ (n, c) ∈ m.history.collected

/-- The action does not find its child exited before it has waited, and does not look up a child
whose status has been collected while that child is on the process table. -/
structure KeepsDelivery (m : Machine) (a : Action) : Prop where
  notYet : ∀ T w child, m.tasks a.caller = some T → T.pc = .waitExited w child →
    (w.pid, T.pid) ∈ m.history.family → m.exited w.pid = false
  gone : ∀ T w, m.tasks a.caller = some T → T.pc = .waitSearch w → Reaped m w.pid →
    m.slotByPid w.pid = none

/-! ## The invariant -/

/-- The status of `c`, as `waitpid` hands it out. -/
def IsStatus (m : Machine) (c : Int) (v : BitVec 32) : Prop :=
  ∃ l ∈ m.history.exits, l.pid = c ∧ v = mkwaitExit l.code

/-- A result of a call `w` of the process `n`: when it is a success, the pid has been given out, and
a parent has collected what it stores. -/
def Good (m : Machine) (n : Int) (w : Wait) (r : WaitResult) : Prop :=
  r.err = 0 → w.pid < m.ptable.nextPid ∧
    ((w.pid, n) ∈ m.history.family → (n, w.pid) ∈ m.history.collected ∧
      (w.status = .valid → ∃ v, r.stored = some v ∧ IsStatus m w.pid v))

/-- The call began after a parent had been given the status of the child it asks for. -/
def Late (m : Machine) (w : Wait) : Prop :=
  ∃ d ∈ before m w, d.wait.pid = w.pid ∧ (w.pid, d.caller) ∈ m.history.family ∧ d.result.err = 0

structure Delivering (m : Machine) : Prop where
  collected : ∀ n c, (n, c) ∈ m.history.collected → c < m.ptable.nextPid
  reaped : ∀ c, Reaped m c → (∃ e ∈ m.history.posted, e.pid = c) ∧
    ∀ i e, m.ptable.activeExitCodes i = some e → e.pid ≠ c
  getting : ∀ q Q w, m.tasks q = some Q → Q.pc = .waitGet w → w.pid < m.ptable.nextPid ∧
    ((w.pid, Q.pid) ∈ m.history.family →
      ∃ i e, m.ptable.activeExitCodes i = some e ∧ e.pid = w.pid ∧ e.ppid = Q.pid)
  copying : ∀ q Q w code, m.tasks q = some Q → Q.pc = .waitCopy w code →
    w.pid < m.ptable.nextPid ∧ ((w.pid, Q.pid) ∈ m.history.family →
      (Q.pid, w.pid) ∈ m.history.collected ∧ IsStatus m w.pid code)
  returning : ∀ q Q w r, m.tasks q = some Q → Q.pc = .waitReturn w r → Good m Q.pid w r
  done : ∀ d ∈ m.history.waits, Good m d.caller d.wait d.result
  startPc : ∀ q Q w, m.tasks q = some Q → Q.pc.wait = some w → w.start ≤ m.history.waits.length
  startDone : ∀ d ∈ m.history.waits, d.wait.start ≤ m.history.waits.length
  latePc : ∀ q Q w, m.tasks q = some Q → Q.pc.wait = some w → Late m w → Q.pc.failing
  lateDone : ∀ d ∈ m.history.waits, Late m d.wait → d.result.err ≠ 0

theorem Late.reaped {m : Machine} {w : Wait} (h : Late m w)
    (hdone : ∀ d ∈ m.history.waits, Good m d.caller d.wait d.result) : Reaped m w.pid := by
  obtain ⟨d, hd, hpid, hfam, herr⟩ := h
  have hmem : d ∈ m.history.waits := by
    have := List.mem_of_mem_take hd
    simpa using this
  obtain ⟨-, hcoll⟩ := hdone d hmem herr
  rw [hpid] at hcoll
  exact ⟨d.caller, hfam, (hcoll hfam).1⟩

theorem delivering_init : Delivering init := by
  have htask : ∀ q Q, init.tasks q = some Q → Q.pc = .user := by
    intro q Q hq
    simp only [init] at hq
    split_ifs at hq
    cases hq
    rfl
  constructor
  case getting =>
    intro q Q w hQ hpc
    rw [htask q Q hQ] at hpc
    cases hpc
  case copying =>
    intro q Q w code hQ hpc
    rw [htask q Q hQ] at hpc
    cases hpc
  case returning =>
    intro q Q w r hQ hpc
    rw [htask q Q hQ] at hpc
    cases hpc
  case startPc | latePc =>
    intro q Q w hQ hpc
    rw [htask q Q hQ] at hpc
    cases hpc
  case reaped =>
    rintro c ⟨n, -, hn⟩
    cases hn
  all_goals simp [init]

/-! ## What a step changes -/

theorem Effect.waits {m m' : Machine} {T : Task} {op : Op} (h : Effect m T m' op) :
    (m'.history.waits = m.history.waits ∧ (∀ w e, op ≠ .refuse w e) ∧ ∀ w r, op ≠ .finish w r) ∨
      ∃ w r, m'.history.waits = ⟨T.pid, w, r⟩ :: m.history.waits ∧
        (op = .finish w r ∨ ∃ e, op = .refuse w e ∧ r = waitFail e) := by
  cases h with
  | refuse w e _ _ hh => exact .inr ⟨w, _, by rw [hh], .inr ⟨e, rfl, rfl⟩⟩
  | finish w r _ _ hh => exact .inr ⟨w, r, by rw [hh], .inl rfl⟩
  | quiet _ hq _ _ hh =>
      refine .inl ⟨by rw [hh], ?_, ?_⟩
      · rintro w e rfl
        cases hq
      · rintro w r rfl
        cases hq
  | leave _ _ _ hh | collect _ _ _ hh | remAll _ _ hh | post _ _ _ _ _ hh | removeNone _ _ _ hh
  | remove _ _ _ _ hh | number _ _ hh | create _ _ hh | putNone _ _ _ _ hh
  | put _ _ _ _ _ hh => exact .inl ⟨by rw [hh], by simp, by simp⟩

theorem waitFail_err (e : Errno) : (waitFail e).err ≠ 0 := by
  have := fail_neg e
  show fail e ≠ 0
  omega

section Step

variable {m m' : Machine} {p : ProcRef} {T : Task} {op : Op} {pc : Pc}

theorem Effect.nextPid_le (h : Effect m T m' op) : m.ptable.nextPid ≤ m'.ptable.nextPid := by
  rcases h.counters with ⟨-, -, he, -⟩ | ⟨-, -, he, -⟩
  · exact he
  · omega

theorem Effect.family_old (h : Effect m T m' op) {c n : Int} (hc : c < m.ptable.nextPid)
    (hfam : (c, n) ∈ m'.history.family) : (c, n) ∈ m.history.family := by
  rcases h.counters with ⟨-, -, -, he⟩ | ⟨-, -, -, he⟩
  · rw [he] at hfam
    exact hfam
  · rw [he] at hfam
    rcases List.mem_cons.1 hfam with he | hfam
    · rw [(Prod.mk.inj he).1] at hc
      exact absurd hc (lt_irrefl _)
    · exact hfam

theorem Effect.exits_mono (h : Effect m T m' op) {l : Left} (hl : l ∈ m.history.exits) :
    l ∈ m'.history.exits := by
  rcases h.exits with ⟨he, -⟩ | ⟨code, -, he⟩
  · rw [he]
    exact hl
  · rw [he]
    exact List.mem_cons_of_mem _ hl

theorem Effect.collected_mono (h : Effect m T m' op) {x : Int × Int}
    (hx : x ∈ m.history.collected) : x ∈ m'.history.collected := by
  rcases h.codes with ⟨-, hc, -⟩ | ⟨pid, -, -, hc⟩ | ⟨-, -, hc⟩ | ⟨x, -, -, hc⟩
  · rw [hc]
    exact hx
  · rw [hc]
    exact List.mem_cons_of_mem _ hx
  · rw [hc]
    exact hx
  · rw [hc]
    exact hx

theorem IsStatus.mono (heff : Effect m T m' op) {c : Int} {v : BitVec 32} (h : IsStatus m c v) :
    IsStatus m' c v := by
  obtain ⟨l, hl, hrest⟩ := h
  exact ⟨l, heff.exits_mono hl, hrest⟩

theorem Good.mono (heff : Effect m T m' op) {n : Int} {w : Wait} {r : WaitResult}
    (h : Good m n w r) : Good m' n w r := by
  intro herr
  obtain ⟨hlt, hrest⟩ := h herr
  refine ⟨lt_of_lt_of_le hlt heff.nextPid_le, fun hfam => ?_⟩
  obtain ⟨hcoll, hvalid⟩ := hrest (heff.family_old hlt hfam)
  refine ⟨heff.collected_mono hcoll, fun hv => ?_⟩
  obtain ⟨v, hstored, hstatus⟩ := hvalid hv
  exact ⟨v, hstored, hstatus.mono heff⟩

/-- Calls that have begun keep the calls before them. -/
theorem Effect.before_eq (heff : Effect m T m' op) {w : Wait}
    (hstart : w.start ≤ m.history.waits.length) : before m' w = before m w := by
  unfold before
  rcases heff.waits with ⟨he, -⟩ | ⟨w', r, he, -⟩
  · rw [he]
  · rw [he, List.reverse_cons, List.take_append_of_le_length (by simpa using hstart)]

theorem Late.of_step (heff : Effect m T m' op)
    (hdone : ∀ d ∈ m.history.waits, Good m d.caller d.wait d.result) {w : Wait}
    (hstart : w.start ≤ m.history.waits.length) (h : Late m' w) : Late m w := by
  obtain ⟨d, hd, hpid, hfam, herr⟩ := h
  rw [heff.before_eq hstart] at hd
  have hmem : d ∈ m.history.waits := by
    have := List.mem_of_mem_take hd
    simpa using this
  obtain ⟨hlt, -⟩ := hdone d hmem herr
  exact ⟨d, hd, hpid, heff.family_old (hpid ▸ hlt) hfam, herr⟩

/-- An entry stays unless its parent takes it. -/
theorem Effect.entry_keep (heff : Effect m T m' op) {i : Fin procMax} {e : Pidxcode}
    (hi : m.ptable.activeExitCodes i = some e) (hne : e.ppid ≠ T.pid) :
    m'.ptable.activeExitCodes i = some e := by
  rcases heff.codes with ⟨hc, -⟩ | ⟨pid, -, hc, -⟩ | ⟨-, hc, -⟩ | ⟨x, -, hc, -⟩
  · rw [hc]
    exact hi
  · rw [hc]
    exact getExitCode_keep hi fun h => hne h.1
  · rw [hc]
    exact remAllExitCodes_eq_some.2 ⟨hi, hne⟩
  · rw [hc]
    split_ifs
    · rcases postExitCode_cases m.ptable.activeExitCodes ⟨T.ppid, T.pid, mkwaitExit x.code⟩ with
        ⟨hfull, -⟩ | ⟨j, hj, hput⟩
      · rw [hfull]
        exact hi
      · have hij : i ≠ j := by
          rintro rfl
          rw [hi] at hj
          cases hj
        rw [hput, Function.update_of_ne hij]
        exact hi
    · exact hi

theorem Effect.entry_old (heff : Effect m T m' op) {i : Fin procMax} {e : Pidxcode}
    (hi : m'.ptable.activeExitCodes i = some e) :
    m.ptable.activeExitCodes i = some e ∨ ((∃ x, op = .post x) ∧ e.pid = T.pid) := by
  rcases heff.codes with ⟨hc, -⟩ | ⟨pid, -, hc, -⟩ | ⟨-, hc, -⟩ | ⟨x, hop, hc, -⟩
  · rw [hc] at hi
    exact .inl hi
  · rw [hc] at hi
    exact .inl (getExitCode_sub hi)
  · rw [hc] at hi
    exact .inl (remAllExitCodes_eq_some.1 hi).1
  · rw [hc] at hi
    split_ifs at hi
    · rcases postExitCode_cases m.ptable.activeExitCodes ⟨T.ppid, T.pid, mkwaitExit x.code⟩ with
        ⟨hfull, -⟩ | ⟨j, hj, hput⟩
      · rw [hfull] at hi
        exact .inl hi
      · rw [hput] at hi
        rcases update_eq_some hi with ⟨-, hx⟩ | ⟨-, hi⟩
        · cases hx
          exact .inr ⟨⟨x, hop⟩, rfl⟩
        · exact .inl hi
    · exact .inl hi

/-! Where the points of a `waitpid` come from. -/

theorem Goes.to_waitGet {pc₀ : Pc} {w : Wait} (h : Goes m p T pc₀ op (.waitGet w)) :
    m.exited w.pid = true ∧ op = .nop := by
  cases h
  exact ⟨by assumption, rfl⟩

theorem Goes.to_waitCopy {pc₀ : Pc} {w : Wait} {code : BitVec 32}
    (h : Goes m p T pc₀ op (.waitCopy w code)) :
    pc₀ = .waitGet w ∧ op = .collect w.pid ∧
      code = (ExitCodes.getExitCode m.ptable.activeExitCodes T.pid w.pid).1 := by
  cases h
  exact ⟨rfl, rfl, rfl⟩

theorem Goes.to_waitReturn {pc₀ : Pc} {w : Wait} {r : WaitResult}
    (h : Goes m p T pc₀ op (.waitReturn w r)) :
    r.err ≠ 0 ∨ (∃ child, pc₀ = .waitExited w child ∧ m.exited w.pid = true) ∨
      ∃ code, pc₀ = .waitCopy w code ∧ (w.status = .valid → r.stored = some code) := by
  cases h with
  | waitMissing | waitFailInner | waitBad => exact .inl (waitFail_err _)
  | waitAlready _ child hex => exact .inr (.inl ⟨child, rfl, hex⟩)
  | waitCopy _ code => exact .inr (.inr ⟨code, rfl, fun hv => if_pos hv⟩)

theorem Goes.collect {pc₀ : Pc} {c : Int} (h : Goes m p T pc₀ (.collect c) pc) :
    ∃ w, pc₀ = .waitGet w ∧ w.pid = c := by
  cases h with
  | waitGet w => exact ⟨w, rfl, rfl⟩

theorem Goes.wait {pc₀ : Pc} {w : Wait} (h : Goes m p T pc₀ op pc) (hw : pc.wait = some w) :
    pc₀.wait = some w ∨ (pc = .waitOwn w ∧ w.start = m.history.waits.length) := by
  cases h <;> simp_all [Pc.wait]

theorem Goes.failing {pc₀ : Pc} {w : Wait} (h : Goes m p T pc₀ op pc) (hw : pc.wait = some w)
    (hw₀ : pc₀.wait = some w) (hf : pc₀.failing)
    (hslot : pc₀ = .waitSearch w → m.slotByPid w.pid = none) (hex : m.exited w.pid = false) :
    pc.failing := by
  cases h with
  | waitOwn | waitMissing => first | exact waitFail_err _ | trivial
  | waitSearch w' =>
      cases hw₀
      rw [hslot rfl]
      trivial
  | waitFetch w' found =>
      cases found with
      | none => trivial
      | some i => exact hf.elim
  | waitNull w' child hne =>
      cases hw₀
      cases child with
      | none =>
          rcases hne with hne | hne
          · exact absurd rfl hne
          · rw [hex] at hne
            cases hne
      | some c => exact hf.elim
  | waitReturn => cases hw
  | _ => exact hf.elim

theorem Goes.finish {pc₀ : Pc} {w : Wait} {r : WaitResult}
    (h : Goes m p T pc₀ (.finish w r) pc) : pc₀ = .waitReturn w r := by
  cases h
  rfl

theorem Goes.refuse_start {pc₀ : Pc} {w : Wait} {e : Errno} (h : Goes m p T pc₀ (.refuse w e) pc) :
    w.start = m.history.waits.length := by
  cases h
  assumption

theorem Passive.wait {pc pc' : Pc} {w : Wait} (h : Passive pc pc') (hw : pc'.wait = some w) :
    pc.wait = some w := by
  cases h with
  | same => exact hw
  | woken => exact hw
  | started => cases hw

theorem Passive.failing {pc pc' : Pc} (h : Passive pc pc') (hf : pc.failing) : pc'.failing := by
  cases h with
  | same => exact hf
  | woken => exact hf.elim
  | started => exact hf.elim

/-- The points at which a call has its status are not reached by a wakeup. -/
theorem Passive.eq_of_status {pc pc' : Pc} (h : Passive pc pc')
    (hpc : (∃ w, pc' = .waitGet w) ∨ (∃ w code, pc' = .waitCopy w code) ∨
      ∃ w r, pc' = .waitReturn w r) : pc = pc' := by
  cases h with
  | same => rfl
  | woken => simp at hpc
  | started => simp at hpc

/-! ## The invariant is kept -/

theorem exited_lt (hw : WellFormed m) (hr : Records m) {c : Int} (h : m.exited c = true) :
    c < m.ptable.nextPid := by
  obtain ⟨i, e, he, rfl⟩ := exited_eq_true.1 h
  exact hw.pids _ _ (hr.postedKnown e (hr.codesPosted i e he))

theorem collected_of_step (hd : Delivering m) (hT : m.tasks p = some T)
    (hgo : Goes m p T T.pc op pc) (heff : Effect m T m' op) :
    ∀ n c, (n, c) ∈ m'.history.collected → c < m'.ptable.nextPid := by
  intro n c hc
  refine lt_of_lt_of_le ?_ heff.nextPid_le
  rcases heff.codes with ⟨-, he, -⟩ | ⟨pid, rfl, -, he⟩ | ⟨-, -, he⟩ | ⟨x, -, -, he⟩
  · rw [he] at hc
    exact hd.collected n c hc
  · rw [he] at hc
    rcases List.mem_cons.1 hc with he | hc
    · obtain ⟨w, hpc₀, hpid⟩ := hgo.collect
      rw [(Prod.mk.inj he).2, ← hpid]
      exact (hd.getting p T w hT hpc₀).1
    · exact hd.collected n c hc
  · rw [he] at hc
    exact hd.collected n c hc
  · rw [he] at hc
    exact hd.collected n c hc

/-- After `get_exit_code` of the parent there is no entry of the child left. -/
theorem no_entry_of_collect (hr : Records m) {n c : Int} {i : Fin procMax} {e : Pidxcode}
    (hi : m.ptable.activeExitCodes i = some e) (hpid : e.pid = c) (hppid : e.ppid = n) {j : Fin procMax}
    {e' : Pidxcode}
    (hj : (ExitCodes.getExitCode m.ptable.activeExitCodes n c).2 j = some e') : e'.pid ≠ c := by
  intro hpid'
  have hj' := getExitCode_sub hj
  have hee : e' = e := hr.postedOnce e' (hr.codesPosted j e' hj') e (hr.codesPosted i e hi)
    (hpid'.trans hpid.symm)
  rcases getExitCode_cases m.ptable.activeExitCodes n c with ⟨-, hnone⟩ | ⟨k, e₀, hk, hn, hc, hg⟩
  · exact hnone i e hi ⟨hppid, hpid⟩
  · have he₀ : e₀ = e' := hr.postedOnce e₀ (hr.codesPosted k e₀ hk) e' (hr.codesPosted j e' hj')
      (hc.trans hpid'.symm)
    have hkj : k = j := hr.codesOnce k j e' (he₀ ▸ hk) hj'
    rw [hg, hkj] at hj
    change Function.update m.ptable.activeExitCodes j none j = some e' at hj
    rw [Function.update_self] at hj
    cases hj

theorem reaped_of_step (hr : Records m) (hd : Delivering m)
    (hT : m.tasks p = some T) (hgo : Goes m p T T.pc op pc) (heff : Effect m T m' op) :
    ∀ c, Reaped m' c → (∃ e ∈ m'.history.posted, e.pid = c) ∧
      ∀ i e, m'.ptable.activeExitCodes i = some e → e.pid ≠ c := by
  have hposted : ∀ c, (∃ e ∈ m.history.posted, e.pid = c) → ∃ e ∈ m'.history.posted, e.pid = c := by
    rintro c ⟨e, he, hpid⟩
    refine ⟨e, ?_, hpid⟩
    rcases heff.posted with ⟨hp, -⟩ | ⟨x, -, hp⟩
    · rw [hp]
      exact he
    · rw [hp]
      exact List.mem_cons_of_mem _ he
  -- what had been collected before the step
  have hold : ∀ c n, (c, n) ∈ m'.history.family → (n, c) ∈ m.history.collected →
      (∃ e ∈ m'.history.posted, e.pid = c) ∧
        ∀ i e, m'.ptable.activeExitCodes i = some e → e.pid ≠ c := by
    intro c n hfam hcoll
    have hlt := hd.collected n c hcoll
    obtain ⟨hp, hnone⟩ := hd.reaped c ⟨n, heff.family_old hlt hfam, hcoll⟩
    refine ⟨hposted c hp, fun i e hi => ?_⟩
    rcases heff.entry_old hi with hi | ⟨⟨x, rfl⟩, hpid⟩
    · exact hnone i e hi
    · obtain ⟨q, hpc₀, -⟩ := hgo.post
      obtain ⟨e₀, he₀, hpid₀⟩ := hp
      rintro rfl
      exact hr.notPosted p T hT (by simp [hpc₀, Pc.past]) e₀ he₀ (hpid₀.trans hpid)
  rintro c ⟨n, hfam, hcoll⟩
  rcases heff.codes with ⟨-, he, -⟩ | ⟨pid, rfl, hcodes, he⟩ | ⟨-, -, he⟩ | ⟨x, -, -, he⟩
  · rw [he] at hcoll
    exact hold c n hfam hcoll
  · rw [he] at hcoll
    rcases List.mem_cons.1 hcoll with he | hcoll
    · obtain ⟨rfl, rfl⟩ := Prod.mk.inj he
      obtain ⟨w, hpc₀, rfl⟩ := hgo.collect
      obtain ⟨hlt, hentry⟩ := hd.getting p T w hT hpc₀
      obtain ⟨i, e, hi, hpid, hppid⟩ := hentry (heff.family_old hlt hfam)
      refine ⟨hposted _ ⟨e, hr.codesPosted i e hi, hpid⟩, fun j e' hj => ?_⟩
      rw [hcodes] at hj
      exact no_entry_of_collect hr hi hpid hppid hj
    · exact hold c n hfam hcoll
  · rw [he] at hcoll
    exact hold c n hfam hcoll
  · rw [he] at hcoll
    exact hold c n hfam hcoll

theorem getting_of_step (hw : WellFormed m) (hr : Records m) (hd : Delivering m)
    (hT : m.tasks p = some T) (hgo : Goes m p T T.pc op pc) (heff : Effect m T m' op)
    (hb : ∀ q Q, m'.tasks q = some Q → Becomes m p T op pc q Q) :
    ∀ q Q w, m'.tasks q = some Q → Q.pc = .waitGet w → w.pid < m'.ptable.nextPid ∧
      ((w.pid, Q.pid) ∈ m'.history.family →
        ∃ i e, m'.ptable.activeExitCodes i = some e ∧ e.pid = w.pid ∧ e.ppid = Q.pid) := by
  intro q Q w hQ hpc
  cases hb q Q hQ with
  | moved _ =>
      obtain rfl : pc = .waitGet w := hpc
      obtain ⟨hex, rfl⟩ := hgo.to_waitGet
      have hlt := exited_lt hw hr hex
      refine ⟨lt_of_lt_of_le hlt heff.nextPid_le, fun hfam => ?_⟩
      obtain ⟨i, e, hi, hpid⟩ := exited_eq_true.1 hex
      have hsame : m'.ptable.activeExitCodes = m.ptable.activeExitCodes := by
        rcases heff.codes with ⟨hc, -⟩ | ⟨_, hop, -⟩ | ⟨hop, -⟩ | ⟨_, hop, -⟩
        · exact hc
        · cases hop
        · cases hop
        · cases hop
      refine ⟨i, e, by rw [hsame]; exact hi, hpid, ?_⟩
      -- the entry is for the only parent that the child has
      have hknown := hr.postedKnown e (hr.codesPosted i e hi)
      rw [hpid] at hknown
      exact hw.parents w.pid e.ppid T.pid hknown (heff.family_old hlt hfam)
  | @other Q₀ pc' hne hQ₀ hpass =>
      obtain rfl : pc' = .waitGet w := hpc
      have hpc₀ : Q₀.pc = .waitGet w := hpass.eq_of_status (.inl ⟨w, rfl⟩)
      obtain ⟨hlt, hentry⟩ := hd.getting q Q₀ w hQ₀ hpc₀
      refine ⟨lt_of_lt_of_le hlt heff.nextPid_le, fun hfam => ?_⟩
      obtain ⟨i, e, hi, hpid, hppid⟩ := hentry (heff.family_old hlt hfam)
      refine ⟨i, e, heff.entry_keep hi fun he => hne ?_, hpid, hppid⟩
      exact hw.distinct q Q₀ p T hQ₀ hT (hppid.symm.trans he)
  | created _ _ => cases hpc

theorem copying_of_step (hr : Records m) (hd : Delivering m) (hT : m.tasks p = some T)
    (hgo : Goes m p T T.pc op pc) (heff : Effect m T m' op)
    (hb : ∀ q Q, m'.tasks q = some Q → Becomes m p T op pc q Q) :
    ∀ q Q w code, m'.tasks q = some Q → Q.pc = .waitCopy w code → w.pid < m'.ptable.nextPid ∧
      ((w.pid, Q.pid) ∈ m'.history.family →
        (Q.pid, w.pid) ∈ m'.history.collected ∧ IsStatus m' w.pid code) := by
  intro q Q w code hQ hpc
  cases hb q Q hQ with
  | moved _ =>
      obtain rfl : pc = .waitCopy w code := hpc
      obtain ⟨hpc₀, rfl, rfl⟩ := hgo.to_waitCopy
      obtain ⟨hlt, hentry⟩ := hd.getting p T w hT hpc₀
      refine ⟨lt_of_lt_of_le hlt heff.nextPid_le, fun hfam => ⟨?_, ?_⟩⟩
      · rcases heff.codes with ⟨-, -, -, hop⟩ | ⟨pid, hop, -, hc⟩ | ⟨hop, -⟩ | ⟨_, hop, -⟩
        · exact absurd rfl (hop w.pid)
        · cases hop
          rw [hc]
          exact List.mem_cons_self
        · cases hop
        · cases hop
      · obtain ⟨i, e, hi, hpid, hppid⟩ := hentry (heff.family_old hlt hfam)
        rcases getExitCode_cases m.ptable.activeExitCodes T.pid w.pid with
          ⟨-, hnone⟩ | ⟨k, e₀, hk, hn, hc, hg⟩
        · exact absurd ⟨hppid, hpid⟩ (hnone i e hi)
        · obtain ⟨l, hl, hlpid, hcode⟩ := hr.postedCode e₀ (hr.codesPosted k e₀ hk)
          refine ⟨l, heff.exits_mono hl, hlpid.trans hc, ?_⟩
          rw [hg]
          exact hcode
  | @other Q₀ pc' hne hQ₀ hpass =>
      obtain rfl : pc' = .waitCopy w code := hpc
      have hpc₀ : Q₀.pc = .waitCopy w code := hpass.eq_of_status (.inr (.inl ⟨w, code, rfl⟩))
      obtain ⟨hlt, hrest⟩ := hd.copying q Q₀ w code hQ₀ hpc₀
      refine ⟨lt_of_lt_of_le hlt heff.nextPid_le, fun hfam => ?_⟩
      obtain ⟨hcoll, hstatus⟩ := hrest (heff.family_old hlt hfam)
      exact ⟨heff.collected_mono hcoll, hstatus.mono heff⟩
  | created _ _ => cases hpc

theorem returning_of_step {a : Action} (hd : Delivering m)
    (hok : KeepsDelivery m a) (hp : a.caller = p) (hw : WellFormed m) (hr : Records m)
    (hT : m.tasks p = some T) (hgo : Goes m p T T.pc op pc) (heff : Effect m T m' op)
    (hb : ∀ q Q, m'.tasks q = some Q → Becomes m p T op pc q Q) :
    ∀ q Q w r, m'.tasks q = some Q → Q.pc = .waitReturn w r → Good m' Q.pid w r := by
  intro q Q w r hQ hpc
  cases hb q Q hQ with
  | moved _ =>
      obtain rfl : pc = .waitReturn w r := hpc
      apply Good.mono heff
      intro herr
      rcases hgo.to_waitReturn with hne | ⟨child, hpc₀, hex⟩ | ⟨code, hpc₀, hstored⟩
      · exact absurd herr hne
      · -- the branch for a child that has exited before: not for a parent
        refine ⟨exited_lt hw hr hex, fun hfam => ?_⟩
        rw [hok.notYet T w child (hp ▸ hT) hpc₀ hfam] at hex
        cases hex
      · obtain ⟨hlt, hrest⟩ := hd.copying p T w code hT hpc₀
        refine ⟨hlt, fun hfam => ?_⟩
        obtain ⟨hcoll, hstatus⟩ := hrest hfam
        exact ⟨hcoll, fun hv => ⟨code, hstored hv, hstatus⟩⟩
  | @other Q₀ pc' hne hQ₀ hpass =>
      obtain rfl : pc' = .waitReturn w r := hpc
      have hpc₀ : Q₀.pc = .waitReturn w r := hpass.eq_of_status (.inr (.inr ⟨w, r, rfl⟩))
      exact (hd.returning q Q₀ w r hQ₀ hpc₀).mono heff
  | created _ _ => cases hpc

/-- The call that returns in a step had the result it returns, and had begun before. -/
theorem return_of_step (hd : Delivering m) (hT : m.tasks p = some T)
    (hgo : Goes m p T T.pc op pc) {w : Wait} {r : WaitResult}
    (hop : op = .finish w r ∨ ∃ e, op = .refuse w e ∧ r = waitFail e) :
    Good m T.pid w r ∧ w.start ≤ m.history.waits.length ∧ (Late m w → r.err ≠ 0) := by
  rcases hop with rfl | ⟨e, rfl, rfl⟩
  · have hpc₀ := hgo.finish
    have hwait : T.pc.wait = some w := by rw [hpc₀]; rfl
    refine ⟨hd.returning p T w r hT hpc₀, hd.startPc p T w hT hwait, fun hl => ?_⟩
    have hf := hd.latePc p T w hT hwait hl
    rw [hpc₀] at hf
    exact hf
  · exact ⟨fun h => absurd h (waitFail_err e), hgo.refuse_start.le, fun _ => waitFail_err e⟩

end Step

theorem delivering_of_step {m m' : Machine} {a : Action} (hw : WellFormed m) (hr : Records m)
    (hd : Delivering m) (hok : KeepsDelivery m a) (h : step m a m') : Delivering m' := by
  obtain ⟨T, op, pc, hT, hgo, happly⟩ := step_cases h
  have hb : ∀ q Q, m'.tasks q = some Q → Becomes m a.caller T op pc q Q :=
    fun q Q hq => becomes_of_step hgo happly hq
  have heff := effect_of_apply hT happly
  have hlen : m.history.waits.length ≤ m'.history.waits.length := by
    rcases heff.waits with ⟨he, -⟩ | ⟨w, r, he, -⟩
    · rw [he]
    · rw [he]
      exact Nat.le_succ _
  constructor
  case collected => exact collected_of_step hd hT hgo heff
  case reaped => exact reaped_of_step hr hd hT hgo heff
  case getting => exact getting_of_step hw hr hd hT hgo heff hb
  case copying => exact copying_of_step hr hd hT hgo heff hb
  case returning => exact returning_of_step hd hok rfl hw hr hT hgo heff hb
  case done =>
    intro d hmem
    rcases heff.waits with ⟨he, -⟩ | ⟨w, r, he, hop⟩
    · rw [he] at hmem
      exact (hd.done d hmem).mono heff
    · rw [he] at hmem
      rcases List.mem_cons.1 hmem with rfl | hmem
      · exact (return_of_step hd hT hgo hop).1.mono heff
      · exact (hd.done d hmem).mono heff
  case startPc =>
    intro q Q w hQ hwait
    refine le_trans ?_ hlen
    cases hb q Q hQ with
    | moved _ =>
        rcases hgo.wait hwait with hwait₀ | ⟨-, hstart⟩
        · exact hd.startPc a.caller T w hT hwait₀
        · exact hstart.le
    | @other Q₀ pc' _ hQ₀ hpass => exact hd.startPc q Q₀ w hQ₀ (hpass.wait hwait)
    | created _ _ => cases hwait
  case startDone =>
    intro d hmem
    rcases heff.waits with ⟨he, -⟩ | ⟨w, r, he, hop⟩
    · rw [he] at hmem
      exact le_trans (hd.startDone d hmem) hlen
    · rw [he] at hmem
      rcases List.mem_cons.1 hmem with rfl | hmem
      · exact le_trans (return_of_step hd hT hgo hop).2.1 hlen
      · exact le_trans (hd.startDone d hmem) hlen
  case latePc =>
    intro q Q w hQ hwait hlate
    cases hb q Q hQ with
    | moved _ =>
        rcases hgo.wait hwait with hwait₀ | ⟨hpc, -⟩
        · have hlate₀ := hlate.of_step heff hd.done (hd.startPc a.caller T w hT hwait₀)
          have hreaped := hlate₀.reaped hd.done
          refine hgo.failing hwait hwait₀ (hd.latePc a.caller T w hT hwait₀ hlate₀)
            (fun hpc₀ => hok.gone T w hT hpc₀ hreaped) ?_
          -- nothing of a collected child is left in the table
          by_contra hex
          obtain ⟨i, e, hi, hpid⟩ := exited_eq_true.1 (Bool.eq_true_of_not_eq_false hex)
          exact (hd.reaped w.pid hreaped).2 i e hi hpid
        · show pc.failing
          rw [hpc]
          trivial
    | @other Q₀ pc' _ hQ₀ hpass =>
        have hwait₀ := hpass.wait hwait
        have hlate₀ := hlate.of_step heff hd.done (hd.startPc q Q₀ w hQ₀ hwait₀)
        exact hpass.failing (hd.latePc q Q₀ w hQ₀ hwait₀ hlate₀)
    | created _ _ => cases hwait
  case lateDone =>
    intro d hmem hlate
    rcases heff.waits with ⟨he, -⟩ | ⟨w, r, he, hop⟩
    · rw [he] at hmem
      exact hd.lateDone d hmem (hlate.of_step heff hd.done (hd.startDone d hmem))
    · rw [he] at hmem
      rcases List.mem_cons.1 hmem with rfl | hmem
      · obtain ⟨-, hstart, hfail⟩ := return_of_step hd hT hgo hop
        exact hfail (hlate.of_step heff hd.done hstart)
      · exact hd.lateDone d hmem (hlate.of_step heff hd.done (hd.startDone d hmem))

/-- In every run in which no parent finds its child exited before it has waited, and no collected
child is looked up while it is on the process table, statuses are delivered. -/
theorem delivered_of_keepsDelivery {m : Machine} (h : Reach step KeepsDelivery init m) :
    Delivered m := by
  have hinv : (WellFormed m ∧ Records m) ∧ Delivering m := by
    refine h.invariant (I := fun m => (WellFormed m ∧ Records m) ∧ Delivering m) ?_
      ⟨⟨wellFormed_init, records_init⟩, delivering_init⟩
    rintro t a u ⟨⟨hw, hr⟩, hd⟩ hok hst
    exact ⟨⟨wellFormed_of_step hw hst, records_of_step hw hr hst⟩,
      delivering_of_step hw hr hd hok hst⟩
  obtain ⟨⟨hw, hr⟩, hd⟩ := hinv
  constructor
  · intro d hmem hfam hret _
    obtain ⟨-, hrest⟩ := hd.done d hmem hret.1
    obtain ⟨hcoll, hvalid⟩ := hrest hfam
    refine ⟨fun hv => ?_, (hd.reaped d.wait.pid ⟨d.caller, hfam, hcoll⟩).2⟩
    obtain ⟨v, hstored, l, hl, hpid, rfl⟩ := hvalid hv
    refine ⟨_, hstored, ⟨l, hl, hpid⟩, fun l' hl' hpid' hfits => ?_⟩
    obtain rfl : l' = l := hr.exitsOnce l' hl' l hl (hpid'.trans hpid.symm)
    exact ⟨wifexited_mkwaitExit l'.code, wexitstatus_mkwaitExit hfits⟩
  · intro d _ hfam hret d' hmem' hpid hbefore
    exact hd.lateDone d' hmem' ⟨d, hbefore, hpid.symm, hpid ▸ hfam, hret.1⟩
  · intro d _ hfam hret q Q w hQ hwait hpid hbefore
    exact hd.latePc q Q w hQ hwait ⟨d, hbefore, hpid.symm, hpid ▸ hfam, hret.1⟩

/-- The test for `KeepsDelivery`. -/
def keepsDelivery (m : Machine) (a : Action) : Bool :=
  (m.tasks a.caller).all fun T =>
    match T.pc with
    | .waitExited w _ => !(m.history.family.contains (w.pid, T.pid)) || !(m.exited w.pid)
    | .waitSearch w =>
        !(m.history.family.any fun x => x.1 == w.pid && m.history.collected.contains (x.2, x.1)) ||
          (m.slotByPid w.pid).isNone
    | _ => true

theorem keepsDelivery_sound {m : Machine} {a : Action} (h : keepsDelivery m a = true) :
    KeepsDelivery m a := by
  constructor
  · intro T w child hT hpc hfam
    simp only [keepsDelivery, hT, Option.all_some, hpc] at h
    simpa [hfam] using h
  · rintro T w hT hpc ⟨n, hfam, hcoll⟩
    simp only [keepsDelivery, hT, Option.all_some, hpc] at h
    have hany : (m.history.family.any fun x =>
        x.1 == w.pid && m.history.collected.contains (x.2, x.1)) = true := by
      refine List.any_eq_true.2 ⟨(w.pid, n), hfam, ?_⟩
      simpa using hcoll
    rw [hany] at h
    simpa using h

/-- A parent sleeps in `waitpid` until its child has exited with the code 7, and waits once more. -/
def deliveredRun : List Action :=
  forkTicks 1 ++ waitTicks 1 2 10 ++ exitTicks 2 7 11 ++ ticks 1 5 ++ waitTicks 1 2 5

theorem delivered_deliveredRun :
    ∃ m, runChecked exec keepsDelivery init deliveredRun = some m ∧ Delivered m := by
  have hrun : (runChecked exec keepsDelivery init deliveredRun).isSome = true := by decide +kernel
  obtain ⟨m, hm⟩ := Option.isSome_iff_exists.1 hrun
  refine ⟨m, hm, delivered_of_keepsDelivery ?_⟩
  exact reach_of_runChecked (fun _ _ _ h => h) (fun _ _ _ hc => keepsDelivery_sound hc) deliveredRun
    .refl hm

/-- The child exits with the code 7 before its parent calls `waitpid`. -/
def exitFirst : List Action := forkTicks 1 ++ exitTicks 2 7 11 ++ waitTicks 1 2 6

theorem not_delivered_of_anyStep : ¬ ∀ m, Reach step anyStep init m → Delivered m := by
  intro h
  have hrun : ((runAll exec init exitFirst).any fun m =>
      decide (m.history.waits = [⟨0, ⟨2, .valid, 0⟩, ⟨0, 2, none⟩⟩]) &&
        decide ((2, 0) ∈ m.history.family)) = true := by decide +kernel
  obtain ⟨m, hm, hbad⟩ := (Option.any_eq_true _ _).1 hrun
  obtain ⟨hwaits, hfam⟩ := Bool.and_eq_true_iff.1 hbad
  have hwaits := of_decide_eq_true hwaits
  have hd := h m (reach_of_runAll (fun _ _ _ h => h) exitFirst .refl hm)
  obtain ⟨v, hv, -⟩ := (hd.first ⟨0, ⟨2, .valid, 0⟩, ⟨0, 2, none⟩⟩ (by simp [hwaits])
    (of_decide_eq_true hfam) ⟨rfl, rfl⟩ (by simp [before])).1 rfl
  cases hv

end Os161.Interleave

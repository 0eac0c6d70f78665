import Os161.Interleave.Steps

set_option autoImplicit false

/-!
# Exits and exit codes

What the history says about the processes that called `_exit`, and what the exit code table holds of
it. A process calls `_exit` once and posts at most once; every entry of the table has been posted, and
no posted entry is in the table twice (`Records`). No guard is needed for any of this.
-/

namespace Os161.Interleave

open Os161.Lib.Runs
open Os161.Lib.Slots
open Os161.Proc
open Os161.Syscall

/-! ## The exit code table -/

theorem remAllExitCodes_eq_some {codes : ExitCodes} {n : Int} {i : Fin procMax} {e : Pidxcode} :
    ExitCodes.remAllExitCodes codes n i = some e ↔ codes i = some e ∧ e.ppid ≠ n := by
  simp [ExitCodes.remAllExitCodes, Option.filter_eq_some_iff]

/-- What `get_exit_code` takes out: the first entry of this parent and child, if there is one. -/
theorem getExitCode_cases (codes : ExitCodes) (n c : Int) :
    (ExitCodes.getExitCode codes n c = (-1, codes) ∧
        ∀ i e, codes i = some e → ¬ (e.ppid = n ∧ e.pid = c)) ∨
      ∃ i e, codes i = some e ∧ e.ppid = n ∧ e.pid = c ∧
        ExitCodes.getExitCode codes n c = (e.exitCode, Function.update codes i none) := by
  cases hf : firstWith (fun e => e.ppid == n && e.pid == c) codes with
  | none =>
      left
      refine ⟨by simp [ExitCodes.getExitCode, hf], ?_⟩
      rintro i e he ⟨hn, hc⟩
      have := firstWith_eq_none hf he
      simp [hn, hc] at this
  | some i =>
      right
      obtain ⟨e, he, hp⟩ := firstWith_eq_some hf
      obtain ⟨hn, hc⟩ := Bool.and_eq_true_iff.1 hp
      exact ⟨i, e, he, by simpa using hn, by simpa using hc, by simp [ExitCodes.getExitCode, hf, he]⟩

theorem getExitCode_sub {codes : ExitCodes} {n c : Int} {i : Fin procMax} {e : Pidxcode}
    (h : (ExitCodes.getExitCode codes n c).2 i = some e) : codes i = some e := by
  rcases getExitCode_cases codes n c with ⟨hg, -⟩ | ⟨j, e', -, -, -, hg⟩
  · rw [hg] at h
    exact h
  · rw [hg] at h
    change Function.update codes j none i = some e at h
    exact (cleared_eq_some h).2

theorem getExitCode_keep {codes : ExitCodes} {n c : Int} {i : Fin procMax} {e : Pidxcode}
    (h : codes i = some e) (hne : ¬ (e.ppid = n ∧ e.pid = c)) :
    (ExitCodes.getExitCode codes n c).2 i = some e := by
  rcases getExitCode_cases codes n c with ⟨hg, -⟩ | ⟨j, e', he', hn, hc, hg⟩
  · rw [hg]
    exact h
  · rw [hg]
    have hij : i ≠ j := by
      rintro rfl
      rw [h] at he'
      cases he'
      exact hne ⟨hn, hc⟩
    show Function.update codes j none i = some e
    rw [Function.update_of_ne hij]
    exact h

theorem postExitCode_cases (codes : ExitCodes) (e : Pidxcode) :
    (ExitCodes.postExitCode codes e = codes ∧ ∀ i, codes i ≠ none) ∨
      ∃ i, codes i = none ∧ ExitCodes.postExitCode codes e = Function.update codes i (some e) := by
  cases hf : firstFree codes with
  | none => exact .inl ⟨by simp [ExitCodes.postExitCode, hf], firstFree_eq_none hf⟩
  | some i => exact .inr ⟨i, firstFree_eq_some hf, by simp [ExitCodes.postExitCode, hf]⟩

theorem exited_eq_true {m : Machine} {c : Int} :
    m.exited c = true ↔ ∃ i e, m.ptable.activeExitCodes i = some e ∧ e.pid = c := by
  unfold Machine.exited ExitCodes.isProcExited
  constructor
  · intro h
    obtain ⟨i, hi⟩ := Option.isSome_iff_exists.1 h
    obtain ⟨e, he, hc⟩ := firstWith_eq_some hi
    exact ⟨i, e, he, by simpa using hc⟩
  · rintro ⟨i, e, he, hc⟩
    cases hf : firstWith (fun e => e.pid == c) m.ptable.activeExitCodes with
    | none =>
        have := firstWith_eq_none hf he
        simp [hc] at this
    | some j => rfl

/-! ## How far an `_exit` has come -/

/-- The argument of an `_exit` that has not got past `post_exit_code`. -/
def Pc.exitArg : Pc → Option Exit
  | .exitOwn x | .exitSearch x | .exitFetch x _ | .exitRem x _ | .exitParent x _
  | .exitPost x _ => some x
  | _ => none

/-- The process is in `_exit`, past `post_exit_code`. -/
def Pc.past : Pc → Prop
  | .exitUnlock _ | .exitSignal _ | .exitRemove | .exitRelease | .exitThread => True
  | _ => False

/-- The process is in `_exit`. -/
def Pc.leaving (pc : Pc) : Prop := pc.exitArg ≠ none ∨ pc.past

theorem Goes.leaving {m : Machine} {p : ProcRef} {T : Task} {op : Op} {pc₀ pc : Pc}
    (h : Goes m p T pc₀ op pc) (hl : pc₀.leaving) : pc.leaving := by
  cases h <;> simp_all [Pc.leaving, Pc.exitArg, Pc.past]

theorem Goes.past {m : Machine} {p : ProcRef} {T : Task} {op : Op} {pc₀ pc : Pc}
    (h : Goes m p T pc₀ op pc) (hl : pc₀.past) : pc.past := by
  cases h <;> simp_all [Pc.past]

/-- Where a process in `_exit` comes from: it was in the same `_exit`, or it has just called it. -/
theorem Goes.from_leaving {m : Machine} {p : ProcRef} {T : Task} {op : Op} {pc₀ pc : Pc}
    (h : Goes m p T pc₀ op pc) (hl : pc.leaving) :
    (pc₀.leaving ∧ (∀ x, pc.exitArg = some x → pc₀.exitArg = some x) ∧ ∀ code, op ≠ .leave code) ∨
      ∃ x, pc = .exitOwn x ∧ op = .leave x.code := by
  cases h <;> simp_all [Pc.leaving, Pc.exitArg, Pc.past]

theorem Goes.leave {m : Machine} {p : ProcRef} {T : Task} {code : BitVec 32} {pc₀ pc : Pc}
    (h : Goes m p T pc₀ (.leave code) pc) : pc₀ = .user ∧ ∃ x, pc = .exitOwn x ∧ x.code = code := by
  cases h with
  | exit x => exact ⟨rfl, x, rfl, rfl⟩

theorem Goes.post {m : Machine} {p : ProcRef} {T : Task} {x : Exit} {pc₀ pc : Pc}
    (h : Goes m p T pc₀ (.post x) pc) : ∃ q, pc₀ = .exitPost x q ∧ pc = .exitUnlock q := by
  cases h with
  | exitPost _ q => exact ⟨q, rfl, rfl⟩

theorem Passive.leaving {pc pc' : Pc} (h : Passive pc pc') (hl : pc'.leaving) : pc' = pc := by
  cases h with
  | same => rfl
  | woken w => simp [Pc.leaving, Pc.exitArg, Pc.past] at hl
  | started => simp [Pc.leaving, Pc.exitArg, Pc.past] at hl

theorem Passive.from_leaving {pc pc' : Pc} (h : Passive pc pc') (hl : pc.leaving) : pc' = pc := by
  cases h with
  | same => rfl
  | woken w => simp [Pc.leaving, Pc.exitArg, Pc.past] at hl
  | started => simp [Pc.leaving, Pc.exitArg, Pc.past] at hl

/-! ## What a step adds to the history -/

theorem Effect.exits {m m' : Machine} {T : Task} {op : Op} (h : Effect m T m' op) :
    (m'.history.exits = m.history.exits ∧ ∀ code, op ≠ .leave code) ∨
      ∃ code, op = .leave code ∧ m'.history.exits =
        ⟨T.pid, code, (m.slotByPid T.ppid).isSome⟩ :: m.history.exits := by
  cases h with
  | leave code _ _ hh => exact .inr ⟨code, rfl, by rw [hh]⟩
  | quiet _ hq _ _ hh =>
      refine .inl ⟨by rw [hh], ?_⟩
      rintro code rfl
      cases hq
  | refuse _ _ _ _ hh | collect _ _ _ hh | finish _ _ _ _ hh | remAll _ _ hh
  | post _ _ _ _ _ hh | removeNone _ _ _ hh | remove _ _ _ _ hh | number _ _ hh | create _ _ hh
  | putNone _ _ _ _ hh | put _ _ _ _ _ hh => exact .inl ⟨by rw [hh], by simp⟩

theorem Effect.posted {m m' : Machine} {T : Task} {op : Op} (h : Effect m T m' op) :
    (m'.history.posted = m.history.posted ∧ ∀ x, op ≠ .post x) ∨
      ∃ x, op = .post x ∧ m'.history.posted =
        ⟨T.ppid, T.pid, mkwaitExit x.code⟩ :: m.history.posted := by
  cases h with
  | post x e he _ _ hh => exact .inr ⟨x, rfl, by rw [hh, he]⟩
  | quiet _ hq _ _ hh =>
      refine .inl ⟨by rw [hh], ?_⟩
      rintro x rfl
      cases hq
  | refuse _ _ _ _ hh | leave _ _ _ hh | collect _ _ _ hh | finish _ _ _ _ hh | remAll _ _ hh
  | removeNone _ _ _ hh | remove _ _ _ _ hh | number _ _ hh | create _ _ hh
  | putNone _ _ _ _ hh | put _ _ _ _ _ hh => exact .inl ⟨by rw [hh], by simp⟩

/-- The exit code table changes in `get_exit_code`, `rem_all_exit_codes` and `post_exit_code`. -/
theorem Effect.codes {m m' : Machine} {T : Task} {op : Op} (h : Effect m T m' op) :
    (m'.ptable.activeExitCodes = m.ptable.activeExitCodes ∧
        m'.history.collected = m.history.collected ∧ (∀ x, op ≠ .post x) ∧
        ∀ pid, op ≠ .collect pid) ∨
      (∃ pid, op = .collect pid ∧ m'.ptable.activeExitCodes =
          (ExitCodes.getExitCode m.ptable.activeExitCodes T.pid pid).2 ∧
        m'.history.collected = (T.pid, pid) :: m.history.collected) ∨
      (op = .remAll ∧ m'.ptable.activeExitCodes =
          ExitCodes.remAllExitCodes m.ptable.activeExitCodes T.pid ∧
        m'.history.collected = m.history.collected) ∨
      ∃ x, op = .post x ∧ m'.ptable.activeExitCodes =
          (if x.alloc then ExitCodes.postExitCode m.ptable.activeExitCodes
            ⟨T.ppid, T.pid, mkwaitExit x.code⟩ else m.ptable.activeExitCodes) ∧
        m'.history.collected = m.history.collected := by
  cases h with
  | collect pid hp _ hh => exact .inr (.inl ⟨pid, rfl, by rw [hp], by rw [hh]⟩)
  | remAll hp _ hh => exact .inr (.inr (.inl ⟨rfl, by rw [hp], by rw [hh]⟩))
  | post x e he hp _ hh =>
      exact .inr (.inr (.inr ⟨x, rfl, by rw [hp, he], by rw [hh]⟩))
  | quiet _ hq hp _ hh =>
      refine .inl ⟨by rw [hp], by rw [hh], ?_, ?_⟩
      · rintro x rfl
        cases hq
      · rintro pid rfl
        cases hq
  | refuse _ _ hp _ hh | leave _ hp _ hh | finish _ _ hp _ hh | removeNone _ hp _ hh
  | remove _ _ hp _ hh | number hp _ hh | create hp _ hh | putNone _ _ hp _ hh
  | put _ _ _ hp _ hh => exact .inl ⟨by rw [hp], by rw [hh], by simp, by simp⟩

/-! ## The records -/

/-- What holds of exits, posted statuses and exit codes in every reachable state. -/
structure Records (m : Machine) : Prop where
  /-- Who is not in `_exit` has not called it. -/
  notLeft : ∀ q Q, m.tasks q = some Q → ¬ Q.pc.leaving → ∀ l ∈ m.history.exits, l.pid ≠ Q.pid
  left : ∀ q Q, m.tasks q = some Q → Q.pc.leaving →
    ∃ l ∈ m.history.exits, l.pid = Q.pid ∧ ∀ x, Q.pc.exitArg = some x → l.code = x.code
  exitsKnown : ∀ l ∈ m.history.exits, l.pid < m.ptable.nextPid
  exitsOnce : ∀ l ∈ m.history.exits, ∀ l' ∈ m.history.exits, l.pid = l'.pid → l = l'
  /-- Who has not got past `post_exit_code` has posted nothing. -/
  notPosted : ∀ q Q, m.tasks q = some Q → ¬ Q.pc.past → ∀ e ∈ m.history.posted, e.pid ≠ Q.pid
  postedKnown : ∀ e ∈ m.history.posted, (e.pid, e.ppid) ∈ m.history.family
  postedOnce : ∀ e ∈ m.history.posted, ∀ e' ∈ m.history.posted, e.pid = e'.pid → e = e'
  postedCode : ∀ e ∈ m.history.posted,
    ∃ l ∈ m.history.exits, l.pid = e.pid ∧ e.exitCode = mkwaitExit l.code
  codesPosted : ∀ i e, m.ptable.activeExitCodes i = some e → e ∈ m.history.posted
  codesOnce : ∀ i j e, m.ptable.activeExitCodes i = some e → m.ptable.activeExitCodes j = some e →
    i = j

theorem records_init : Records init := by
  have htask : ∀ q Q, init.tasks q = some Q → Q.pc = .user := by
    intro q Q hq
    simp only [init] at hq
    split_ifs at hq
    cases hq
    rfl
  constructor
  case left =>
    intro q Q hq hl
    rw [htask q Q hq] at hl
    simp [Pc.leaving, Pc.exitArg, Pc.past] at hl
  all_goals simp [init]

section Step

variable {m m' : Machine} {p : ProcRef} {T : Task} {op : Op} {pc : Pc}

theorem Records.exits_of_step (hw : WellFormed m) (hr : Records m) (hT : m.tasks p = some T)
    (hgo : Goes m p T T.pc op pc) (heff : Effect m T m' op)
    (hb : ∀ q Q, m'.tasks q = some Q → Becomes m p T op pc q Q) :
    (∀ q Q, m'.tasks q = some Q → ¬ Q.pc.leaving → ∀ l ∈ m'.history.exits, l.pid ≠ Q.pid) ∧
      (∀ q Q, m'.tasks q = some Q → Q.pc.leaving →
        ∃ l ∈ m'.history.exits, l.pid = Q.pid ∧ ∀ x, Q.pc.exitArg = some x → l.code = x.code) ∧
      (∀ l ∈ m'.history.exits, ∀ l' ∈ m'.history.exits, l.pid = l'.pid → l = l') := by
  rcases heff.exits with ⟨he, hop⟩ | ⟨code, rfl, he⟩
  · rw [he]
    refine ⟨fun q Q hQ hl l hmem => ?_, fun q Q hQ hl => ?_, hr.exitsOnce⟩
    · cases hb q Q hQ with
      | moved _ => exact hr.notLeft p T hT (fun hl₀ => hl (hgo.leaving hl₀)) l hmem
      | @other Q₀ pc' _ hQ₀ hpass =>
          refine hr.notLeft q Q₀ hQ₀ (fun hl₀ => hl ?_) l hmem
          rw [hpass.from_leaving hl₀]
          exact hl₀
      | created _ _ => exact ne_of_lt (hr.exitsKnown l hmem)
    · cases hb q Q hQ with
      | moved _ =>
          rcases hgo.from_leaving hl with ⟨hl₀, harg, -⟩ | ⟨x, -, hleave⟩
          · obtain ⟨l, hmem, hpid, hcode⟩ := hr.left p T hT hl₀
            exact ⟨l, hmem, hpid, fun x hx => hcode x (harg x hx)⟩
          · exact absurd hleave (hop _)
      | @other Q₀ pc' _ hQ₀ hpass =>
          obtain rfl : pc' = Q₀.pc := hpass.leaving hl
          exact hr.left q Q₀ hQ₀ hl
      | created _ _ => simp [Pc.leaving, Pc.exitArg, Pc.past] at hl
  · obtain ⟨hpc₀, x, rfl, rfl⟩ := hgo.leave
    have hout : ¬ T.pc.leaving := by simp [hpc₀, Pc.leaving, Pc.exitArg, Pc.past]
    have hnone : ∀ l ∈ m.history.exits, l.pid ≠ T.pid := hr.notLeft p T hT hout
    rw [he]
    refine ⟨fun q Q hQ hl l hmem => ?_, fun q Q hQ hl => ?_, fun l hmem l' hmem' hpid => ?_⟩
    · cases hb q Q hQ with
      | moved _ => exact absurd (Or.inl (by simp [Pc.exitArg])) hl
      | @other Q₀ pc' hne hQ₀ hpass =>
          rcases List.mem_cons.1 hmem with rfl | hmem
          · exact fun hpid => hne (hw.distinct q Q₀ p T hQ₀ hT hpid.symm)
          · refine hr.notLeft q Q₀ hQ₀ (fun hl₀ => hl ?_) l hmem
            rw [hpass.from_leaving hl₀]
            exact hl₀
      | created _ hcr => cases hcr
    · cases hb q Q hQ with
      | moved _ => exact ⟨_, List.mem_cons_self, rfl, fun y hy => by cases hy; rfl⟩
      | @other Q₀ pc' _ hQ₀ hpass =>
          obtain rfl : pc' = Q₀.pc := hpass.leaving hl
          obtain ⟨l, hmem, hrest⟩ := hr.left q Q₀ hQ₀ hl
          exact ⟨l, List.mem_cons_of_mem _ hmem, hrest⟩
      | created _ hcr => cases hcr
    · rcases List.mem_cons.1 hmem with rfl | hmem <;> rcases List.mem_cons.1 hmem' with rfl | hmem'
      · rfl
      · exact absurd hpid.symm (hnone l' hmem')
      · exact absurd hpid (hnone l hmem)
      · exact hr.exitsOnce l hmem l' hmem' hpid

theorem Records.posted_of_step (hw : WellFormed m) (hr : Records m) (hT : m.tasks p = some T)
    (hgo : Goes m p T T.pc op pc) (heff : Effect m T m' op)
    (hb : ∀ q Q, m'.tasks q = some Q → Becomes m p T op pc q Q) :
    (∀ q Q, m'.tasks q = some Q → ¬ Q.pc.past → ∀ e ∈ m'.history.posted, e.pid ≠ Q.pid) ∧
      (∀ e ∈ m'.history.posted, ∀ e' ∈ m'.history.posted, e.pid = e'.pid → e = e') := by
  have hother : ∀ q Q₀ pc', m.tasks q = some Q₀ → Passive Q₀.pc pc' → ¬ pc'.past →
      ∀ e ∈ m.history.posted, e.pid ≠ Q₀.pid := by
    intro q Q₀ pc' hQ₀ hpass hp e hmem
    refine hr.notPosted q Q₀ hQ₀ (fun hp₀ => hp ?_) e hmem
    rw [hpass.from_leaving (.inr hp₀)]
    exact hp₀
  rcases heff.posted with ⟨he, -⟩ | ⟨x, rfl, he⟩
  · rw [he]
    refine ⟨fun q Q hQ hp e hmem => ?_, hr.postedOnce⟩
    cases hb q Q hQ with
    | moved _ => exact hr.notPosted p T hT (fun hp₀ => hp (hgo.past hp₀)) e hmem
    | @other Q₀ pc' _ hQ₀ hpass => exact hother q Q₀ pc' hQ₀ hpass hp e hmem
    | created _ _ => exact ne_of_lt (hw.pids _ _ (hr.postedKnown e hmem))
  · obtain ⟨r, hpc₀, rfl⟩ := hgo.post
    have hnone : ∀ e ∈ m.history.posted, e.pid ≠ T.pid :=
      hr.notPosted p T hT (by simp [hpc₀, Pc.past])
    rw [he]
    refine ⟨fun q Q hQ hp e hmem => ?_, fun e hmem e' hmem' hpid => ?_⟩
    · cases hb q Q hQ with
      | moved _ => exact absurd trivial hp
      | @other Q₀ pc' hne hQ₀ hpass =>
          rcases List.mem_cons.1 hmem with rfl | hmem
          · exact fun hpid => hne (hw.distinct q Q₀ p T hQ₀ hT hpid.symm)
          · exact hother q Q₀ pc' hQ₀ hpass hp e hmem
      | created _ hcr => cases hcr
    · rcases List.mem_cons.1 hmem with rfl | hmem <;> rcases List.mem_cons.1 hmem' with rfl | hmem'
      · rfl
      · exact absurd hpid.symm (hnone e' hmem')
      · exact absurd hpid (hnone e hmem)
      · exact hr.postedOnce e hmem e' hmem' hpid

theorem Records.codes_of_step (hr : Records m) (hT : m.tasks p = some T)
    (hgo : Goes m p T T.pc op pc) (heff : Effect m T m' op) :
    (∀ i e, m'.ptable.activeExitCodes i = some e → e ∈ m'.history.posted) ∧
      ∀ i j e, m'.ptable.activeExitCodes i = some e → m'.ptable.activeExitCodes j = some e →
        i = j := by
  -- entries are only taken out, or one that has just been posted is put in
  have hsub : (∀ i e, m'.ptable.activeExitCodes i = some e →
      m.ptable.activeExitCodes i = some e) → ((∀ i e, m'.ptable.activeExitCodes i = some e →
        e ∈ m'.history.posted) ∧ ∀ i j e, m'.ptable.activeExitCodes i = some e →
        m'.ptable.activeExitCodes j = some e → i = j) := by
    intro h
    refine ⟨fun i e hi => ?_, fun i j e hi hj => hr.codesOnce i j e (h i e hi) (h j e hj)⟩
    have hmem := hr.codesPosted i e (h i e hi)
    rcases heff.posted with ⟨he, -⟩ | ⟨x, -, he⟩
    · rw [he]
      exact hmem
    · rw [he]
      exact List.mem_cons_of_mem _ hmem
  rcases heff.codes with ⟨hc, -⟩ | ⟨pid, -, hc, -⟩ | ⟨-, hc, -⟩ | ⟨x, rfl, hc, -⟩
  · exact hsub fun i e hi => by rw [← hc, hi]
  · apply hsub
    intro i e hi
    rw [hc] at hi
    exact getExitCode_sub hi
  · apply hsub
    intro i e hi
    rw [hc] at hi
    exact (remAllExitCodes_eq_some.1 hi).1
  · cases hx : x.alloc with
    | false =>
        rw [hx] at hc
        exact hsub fun i e hi => by rw [← hi, hc]; rfl
    | true =>
        rw [hx, if_pos rfl] at hc
        rcases postExitCode_cases m.ptable.activeExitCodes ⟨T.ppid, T.pid, mkwaitExit x.code⟩ with
          ⟨hfull, -⟩ | ⟨k, hk, hput⟩
        · exact hsub fun i e hi => by rw [← hi, hc, hfull]
        · rw [hput] at hc
          obtain ⟨r, hpc₀, -⟩ := hgo.post
          have hnew : ∀ i e, m.ptable.activeExitCodes i = some e → e.pid ≠ T.pid := fun i e hi =>
            hr.notPosted p T hT (by simp [hpc₀, Pc.past]) e (hr.codesPosted i e hi)
          have hposted : m'.history.posted =
              ⟨T.ppid, T.pid, mkwaitExit x.code⟩ :: m.history.posted := by
            rcases heff.posted with ⟨-, hne⟩ | ⟨y, hy, he⟩
            · exact absurd rfl (hne x)
            · cases hy
              exact he
          rw [hposted, hc]
          refine ⟨fun i e hi => ?_, fun i j e hi hj => ?_⟩
          · rcases update_eq_some hi with ⟨-, hx⟩ | ⟨-, hi⟩
            · cases hx
              exact List.mem_cons_self
            · exact List.mem_cons_of_mem _ (hr.codesPosted i e hi)
          · exact once_written hr.codesOnce (fun l hl => hnew l _ hl rfl) hi hj

end Step

theorem records_of_step {m m' : Machine} {a : Action} (hw : WellFormed m) (hr : Records m)
    (h : step m a m') : Records m' := by
  obtain ⟨T, op, pc, hT, hgo, happly⟩ := step_cases h
  have hb : ∀ q Q, m'.tasks q = some Q → Becomes m a.caller T op pc q Q :=
    fun q Q hq => becomes_of_step hgo happly hq
  have heff := effect_of_apply hT happly
  obtain ⟨hnotLeft, hleft, hexitsOnce⟩ := hr.exits_of_step hw hT hgo heff hb
  obtain ⟨hnotPosted, hpostedOnce⟩ := hr.posted_of_step hw hT hgo heff hb
  obtain ⟨hcodesPosted, hcodesOnce⟩ := hr.codes_of_step hT hgo heff
  have hexitsMono : ∀ l ∈ m.history.exits, l ∈ m'.history.exits := by
    intro l hl
    rcases heff.exits with ⟨he, -⟩ | ⟨code, -, he⟩
    · rw [he]
      exact hl
    · rw [he]
      exact List.mem_cons_of_mem _ hl
  have hfamMono : ∀ x ∈ m.history.family, x ∈ m'.history.family := by
    intro x hx
    rcases heff.counters with ⟨-, -, -, he⟩ | ⟨-, -, -, he⟩
    · rw [he]
      exact hx
    · rw [he]
      exact List.mem_cons_of_mem _ hx
  have hpid : m.ptable.nextPid ≤ m'.ptable.nextPid := by
    rcases heff.counters with ⟨-, -, he, -⟩ | ⟨-, -, he, -⟩
    · exact he
    · omega
  refine ⟨hnotLeft, hleft, fun l hl => ?_, hexitsOnce, hnotPosted, fun e he => ?_, hpostedOnce,
    fun e he => ?_, hcodesPosted, hcodesOnce⟩
  · refine lt_of_lt_of_le ?_ hpid
    rcases heff.exits with ⟨hex, -⟩ | ⟨code, -, hex⟩
    · rw [hex] at hl
      exact hr.exitsKnown l hl
    · rw [hex] at hl
      rcases List.mem_cons.1 hl with rfl | hl
      · exact hw.pid_lt hT
      · exact hr.exitsKnown l hl
  · rcases heff.posted with ⟨hp, -⟩ | ⟨x, -, hp⟩
    · rw [hp] at he
      exact hfamMono _ (hr.postedKnown e he)
    · rw [hp] at he
      rcases List.mem_cons.1 he with rfl | he
      · exact hfamMono _ (hw.known a.caller T hT)
      · exact hfamMono _ (hr.postedKnown e he)
  · rcases heff.posted with ⟨hp, -⟩ | ⟨x, rfl, hp⟩
    · rw [hp] at he
      obtain ⟨l, hl, hrest⟩ := hr.postedCode e he
      exact ⟨l, hexitsMono l hl, hrest⟩
    · rw [hp] at he
      rcases List.mem_cons.1 he with rfl | he
      · obtain ⟨q, hpc₀, -⟩ := hgo.post
        obtain ⟨l, hl, hlpid, hcode⟩ := hr.left a.caller T hT (.inl (by simp [hpc₀, Pc.exitArg]))
        exact ⟨l, hexitsMono l hl, hlpid, by rw [hcode x (by simp [hpc₀, Pc.exitArg])]⟩
      · obtain ⟨l, hl, hrest⟩ := hr.postedCode e he
        exact ⟨l, hexitsMono l hl, hrest⟩

end Os161.Interleave

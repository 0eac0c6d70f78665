import Os161.Thread.Histories

set_option autoImplicit false

/-!
# One call of `thread_consider_migration`

A call on one cpu, while the other cpus make steps of all kinds but take no thread from a run queue.
No thread that is on a run queue at some time is lost, whatever is added.
-/

namespace Os161.Thread

open Os161.Lib.Places Os161.Lib.Runs

variable {n : Nat} {ω : Type}

/-- In `thread_consider_migration`. -/
def Code.migrating : Code n ω → Bool
  | .count _ _ _ _ | .counted _ _ _ _ | .gather _ _ | .gathered _ _ _ | .send _ _ _ _ _
  | .sent _ _ _ _ _ | .giveBack _ | .gaveBack => true
  | _ => false

/-- A bound on the steps of the call from there on. -/
def Code.remaining : Code n ω → Nat
  | .count _ rest _ _ => 2 * rest.length + 2 * n + 7
  | .counted _ rest _ _ => 2 * rest.length + 2 * n + 6
  | .gather _ _ => 2 * n + 4
  | .gathered _ _ _ => 2 * n + 3
  | .send _ rest _ _ _ => 2 * rest.length + 4
  | .sent _ rest _ _ _ => 2 * rest.length + 3
  | .giveBack _ => 2
  | .gaveBack => 1
  | _ => 0

/-- The only run queue that is locked is the one that the call has locked. -/
def Unlocked (c : Fin n) (s : State n ω) : Prop :=
  ∀ i, s.holder (.runqueue i) = none ∨ (s.code c).locked c = some i

variable [DecidableEq ω]

/-- A step of the cpu `d` during a call on the cpu `c`: one of the call itself, or one of another
cpu, which may add threads to the run queues and takes none from them. -/
structure During (c : Fin n) (s : State n ω) (d : Fin n) (s' : State n ω) : Prop where
  step : Step s d s'
  own : d = c → (s.code c).migrating = true
  adds : d ≠ c → ∀ i, s.runqueue i <+: s'.runqueue i

/-- The state in which the call begins. -/
def State.callMigration (s : State n ω) (c : Fin n) : State n ω :=
  s.goto c (counting 0 0 (List.finRange n))

/-- The thread is on a run queue or in `victims`. -/
def Queued (c : Fin n) (s : State n ω) (t : Tid) : Prop :=
  (∃ i, t ∈ s.runqueue i) ∨ t ∈ (s.code c).victims

omit [DecidableEq ω]

/-! ## The points of the code -/

section Points

variable {c : Fin n} {s : State n ω} {share k my total : Nat} {vs : List Tid} {l : List (Fin n)}

theorem victims_sending (share k : Nat) (vs : List Tid) (l : List (Fin n)) :
    (sending c share k vs l : Code n ω).victims = vs :=
  congrArg (fun p => p.2.2.2.1) (locals_sending (ω := ω) (c := c) share k vs l).1

theorem remaining_counting (my total : Nat) (l : List (Fin n)) :
    (counting my total l : Code n ω).remaining ≤ 2 * l.length + 2 * n + 5 := by
  unfold counting
  split
  · dsimp only
    split
    · exact Nat.zero_le _
    · simp only [Code.remaining]
      omega
  · simp only [Code.remaining, List.length_cons]
    omega

theorem remaining_finish (vs : List Tid) : (finish vs : Code n ω).remaining ≤ 2 := by
  cases vs
  · exact Nat.zero_le 2
  · exact Nat.le_refl 2

theorem remaining_sending (share k : Nat) (vs : List Tid) (l : List (Fin n)) :
    (sending c share k vs l : Code n ω).remaining ≤ 2 * l.length + 2 := by
  induction l with
  | nil => exact remaining_finish vs
  | cons i rest ih =>
      unfold sending
      split
      · exact Nat.le_trans (remaining_finish vs) (Nat.le_add_left _ _)
      · split
        · exact Nat.le_trans ih (by simp only [List.length_cons]; omega)
        · simp only [Code.remaining, List.length_cons]
          omega

theorem migrating_counting (my total : Nat) (l : List (Fin n)) :
    (counting my total l : Code n ω).migrating = true ∨
      (counting my total l : Code n ω) = .out := by
  unfold counting
  split
  · dsimp only
    split
    · exact .inr rfl
    · exact .inl rfl
  · exact .inl rfl

theorem migrating_finish (vs : List Tid) :
    (finish vs : Code n ω).migrating = true ∨ (finish vs : Code n ω) = .out := by
  cases vs
  · exact .inr rfl
  · exact .inl rfl

theorem migrating_sending (share k : Nat) (vs : List Tid) (l : List (Fin n)) :
    (sending c share k vs l : Code n ω).migrating = true ∨
      (sending c share k vs l : Code n ω) = .out := by
  induction l with
  | nil => exact migrating_finish vs
  | cons i rest ih =>
      unfold sending
      split
      · exact migrating_finish vs
      · split
        · exact ih
        · exact .inl rfl

/-- A cpu gets no thread above its share. -/
theorem sendTo_share {cur : Tid} {k' count : Nat} {ts vs' : List Tid}
    (h : sendTo cur share k count vs = some (ts, vs', k')) :
    ts = [] ∨ count + ts.length ≤ share := by
  induction k generalizing count vs ts with
  | zero =>
      cases h
      exact .inl rfl
  | succ k ih =>
      unfold sendTo at h
      split at h
      · rename_i hlt
        cases vs with
        | nil => cases h
        | cons t vs =>
            dsimp only at h
            split at h
            · exact ih h
            · obtain ⟨⟨ts, vs₁, k₁⟩, hrun, hr⟩ := Option.map_eq_some_iff.1 h
              cases hr
              refine .inr ?_
              rcases ih hrun with rfl | hle
              · exact hlt
              · simp only [List.length_cons]
                omega
      · cases h
        exact .inl rfl

end Points

/-! ## Steps -/

section Steps

variable [DecidableEq ω] {s s' : State n ω} {c d : Fin n} {t : Tid}

/-- Step lemma. No thread is lost. -/
theorem queued_step (h : During c s d s') (ht : Queued c s t) : Queued c s' t := by
  by_cases hd : d = c
  swap
  · have hcode := (length_le_of_step h.step (Ne.symm hd)).1
    rcases ht with ⟨i, hi⟩ | hv
    · exact .inl ⟨i, (h.adds hd i).subset hi⟩
    · exact .inr (by rwa [hcode])
  subst hd
  have hmig := h.own rfl
  -- the threads that are in `victims` when the step begins
  have hfrom : ∀ {p}, s.code d = p → (∃ i, t ∈ s.runqueue i) ∨ t ∈ p.victims := by
    rintro p rfl
    exact ht
  have hgoto : ∀ (u : State n ω) p, (∃ i, t ∈ u.runqueue i) ∨ t ∈ p.victims →
      Queued d (u.goto d p) t := by
    intro u p hu
    rwa [Queued, show (u.goto d p).code d = p from Function.update_self ..]
  have happend : ∀ (u : State n ω) i j ts, t ∈ u.runqueue i → t ∈ (u.append j ts).runqueue i := by
    intro u i j ts hi
    by_cases hij : i = j
    · subst hij
      simp [State.append, hi]
    · simpa [State.append, hij] using hi
  cases h.step with
  | count hc => exact hgoto _ _ ((hfrom hc).imp id (fun e => by cases e))
  | counted hc => exact hgoto _ _ ((hfrom hc).imp id (fun e => by cases e))
  | @gather share k queue vs hc _ hrun =>
      refine hgoto _ _ ?_
      have happ := (gather_append hrun).1
      rcases hfrom hc with ⟨i, hi⟩ | hv
      · by_cases hid : i = d
        · subst hid
          rw [List.append_nil] at happ
          rw [← happ, List.mem_append] at hi
          refine hi.imp (fun hq => ⟨i, ?_⟩) id
          simpa using hq
        · exact .inl ⟨i, by simpa [State.lock, hid] using hi⟩
      · cases hv
  | gathered hc =>
      refine hgoto _ _ ?_
      rw [victims_sending]
      exact hfrom hc
  | @send i rest share k k' vs ts vs' hc _ hrun =>
      refine hgoto _ _ ?_
      have hperm := (sendTo_perm hrun).1
      rcases hfrom hc with ⟨j, hj⟩ | hv
      · exact .inl ⟨j, happend (s.lock d _) j i ts hj⟩
      · rcases List.mem_append.1 (hperm.mem_iff.2 hv) with hts | hvs
        · exact .inl ⟨i, by simp [State.append, hts]⟩
        · exact .inr hvs
  | sent hc =>
      refine hgoto _ _ ?_
      rw [victims_sending]
      exact hfrom hc
  | @giveBack vs hc _ =>
      refine hgoto _ _ (.inl ?_)
      rcases hfrom hc with ⟨j, hj⟩ | hv
      · exact ⟨j, happend (s.lock d _) j d vs hj⟩
      · exact ⟨d, by simp [State.append, show t ∈ vs from hv]⟩
  | gaveBack hc => exact hgoto _ _ ((hfrom hc).imp id (fun e => by cases e))
  | _ => simp_all [Code.migrating]

/-- Step lemma. Only `victims` go to other cpus, and no cpu gets more than its share. -/
theorem give_step (h : During c s c s') {i : Fin n} (hi : i ≠ c)
    (hne : s'.runqueue i ≠ s.runqueue i) :
    ∃ rest share k vs ts, s.code c = .send i rest share k vs ∧ ts ⊆ vs ∧ s.curthread c ∉ ts ∧
      s'.runqueue i = s.runqueue i ++ ts ∧ (s.runqueue i).length < share ∧
      (s'.runqueue i).length ≤ share := by
  have hmig := h.own rfl
  cases h.step with
  | count | counted | gathered | sent | gaveBack => exact absurd rfl hne
  | gather | giveBack =>
      refine absurd ?_ hne
      simp [State.goto, State.append, State.lock, hi]
  | @send j rest share k k' vs ts vs' hc _ hrun =>
      obtain ⟨hperm, hcur, -⟩ := sendTo_perm hrun
      by_cases hij : i = j
      · subst hij
        have hqueue : (((s.lock c (.runqueue i)).append i ts).goto c
            (.sent i rest share k' vs')).runqueue i = s.runqueue i ++ ts := Function.update_self ..
        refine ⟨rest, share, k, vs, ts, hc, fun t ht => ?_, hcur, hqueue, ?_⟩
        · exact hperm.mem_iff.1 (List.mem_append_left _ ht)
        · change (s.runqueue i).length < share ∧ (Function.update s.runqueue i _ i).length ≤ share
          rw [Function.update_self, List.length_append]
          rcases sendTo_share hrun with rfl | hle
          · refine absurd ?_ hne
            simp [State.goto, State.append, State.lock]
          · have hpos : ts ≠ [] := by
              rintro rfl
              exact hne (by simp [State.goto, State.append, State.lock])
            have := List.length_pos_of_ne_nil hpos
            exact ⟨by omega, hle⟩
      · refine absurd ?_ hne
        simp [State.goto, State.append, State.lock, hij]
  | _ => simp_all [Code.migrating]

/-- Step lemma. The call gets nearer to its end. -/
theorem remaining_step (h : During c s c s') : (s'.code c).remaining < (s.code c).remaining := by
  have hmig := h.own rfl
  have hgoto : ∀ (u : State n ω) p {m}, p.remaining < m → ((u.goto c p).code c).remaining < m := by
    intro u p m hp
    rwa [show (u.goto c p).code c = p from Function.update_self ..]
  cases h.step with
  | count hc => rw [hc]; exact hgoto _ _ (Nat.lt_succ_self _)
  | @counted i rest my total hc =>
      rw [hc]
      exact hgoto _ _ (Nat.lt_succ_of_le (remaining_counting my total rest))
  | gather hc => rw [hc]; exact hgoto _ _ (Nat.lt_succ_self _)
  | @gathered share k vs hc =>
      have hle := remaining_sending (ω := ω) (c := c) share k vs (List.finRange n)
      rw [List.length_finRange] at hle
      rw [hc]
      exact hgoto _ _ (Nat.lt_succ_of_le hle)
  | send hc => rw [hc]; exact hgoto _ _ (Nat.lt_succ_self _)
  | @sent i rest share k vs hc =>
      rw [hc]
      exact hgoto _ _ (Nat.lt_succ_of_le (remaining_sending share k vs rest))
  | giveBack hc => rw [hc]; exact hgoto _ _ (Nat.lt_succ_self _)
  | gaveBack hc => rw [hc]; exact hgoto _ _ (Nat.lt_succ_self _)
  | _ => simp_all [Code.migrating]

/-- The call goes on, or it returns. -/
theorem code_step (h : During c s c s') :
    (s'.code c).migrating = true ∨ s'.code c = .out := by
  have hmig := h.own rfl
  have hgoto : ∀ (u : State n ω) p, p.migrating = true ∨ p = .out →
      ((u.goto c p).code c).migrating = true ∨ (u.goto c p).code c = .out := by
    intro u p hp
    rwa [show (u.goto c p).code c = p from Function.update_self ..]
  cases h.step with
  | @counted i rest my total => exact hgoto _ _ (migrating_counting my total rest)
  | @gathered share k vs => exact hgoto _ _ (migrating_sending share k vs _)
  | @sent i rest share k vs => exact hgoto _ _ (migrating_sending share k vs _)
  | gaveBack => exact hgoto _ _ (.inr rfl)
  | count | gather | send | giveBack => exact hgoto _ _ (.inl rfl)
  | _ => simp_all [Code.migrating]

theorem unlocked_step (h : During c s c s') (hfree : Unlocked c s) : Unlocked c s' := by
  have hmig := h.own rfl
  have hgoto : ∀ (u : State n ω) p,
      (∀ j, u.holder (.runqueue j) = none ∨ p.locked c = some j) → Unlocked c (u.goto c p) := by
    intro u p hu j
    rw [show (u.goto c p).code c = p from Function.update_self ..]
    exact hu j
  have hlock : ∀ {p i j}, s.code c = p → p.locked c = none →
      (s.lock c (.runqueue i)).holder (.runqueue j) = none ∨ some i = some j := by
    rintro p i j rfl hnone
    by_cases hij : i = j
    · exact .inr (congrArg some hij)
    · refine .inl ?_
      have hj := hfree j
      rw [hnone] at hj
      simpa [State.lock, Ne.symm hij] using hj
  have hunlock : ∀ {p i j}, s.code c = p → p.locked c = some i →
      (s.unlock (.runqueue i)).holder (.runqueue j) = none := by
    rintro p i j rfl hsome
    by_cases hij : i = j
    · subst hij
      exact Function.update_self ..
    · have hj := hfree j
      rw [hsome] at hj
      simpa [State.unlock, Ne.symm hij, hij] using hj
  cases h.step with
  | count hc | gather hc | send hc | giveBack hc => exact hgoto _ _ fun j => hlock hc rfl
  | counted hc | gathered hc | sent hc | gaveBack hc =>
      exact hgoto _ _ fun j => .inl (hunlock hc rfl)
  | _ => simp_all [Code.migrating]

/-- When no other cpu has a run queue locked, the call can go on. -/
theorem exists_step (hmig : (s.code c).migrating = true)
    (hcounts : Counts (s.runqueue c) (s.code c)) (hfree : Unlocked c s) :
    ∃ s', During c s c s' := by
  have hgo : ∀ {s'}, Step s c s' → ∃ s', During c s c s' := fun hstep =>
    ⟨_, hstep, fun _ => hmig, fun hne => absurd rfl hne⟩
  have hlock : ∀ i, (s.code c).locked c = none → s.holder (.runqueue i) = none := by
    intro i hnone
    refine (hfree i).resolve_right ?_
    rw [hnone]
    exact nofun
  cases hc : s.code c with
  | count i rest my total => exact hgo (.count hc (hlock i (by rw [hc]; rfl)))
  | counted i rest my total => exact hgo (.counted hc)
  | gather share k =>
      rw [hc] at hcounts
      obtain ⟨⟨queue, vs⟩, hrun⟩ := exists_gather k (s.runqueue c) [] hcounts
      exact hgo (.gather hc (hlock c (by rw [hc]; rfl)) hrun)
  | gathered share k vs => exact hgo (.gathered hc)
  | send i rest share k vs =>
      rw [hc] at hcounts
      obtain ⟨⟨ts, vs', k'⟩, hrun⟩ : ∃ r, sendTo (s.curthread c) share k (s.runqueue i).length vs =
          some r := exists_sendTo k _ vs hcounts
      exact hgo (.send hc (hlock i (by rw [hc]; rfl)) hrun)
  | sent i rest share k vs => exact hgo (.sent hc)
  | giveBack vs => exact hgo (.giveBack hc (hlock c (by rw [hc]; rfl)))
  | gaveBack => exact hgo (.gaveBack hc)
  | _ => simp_all [Code.migrating]

/-- The call returns when the other cpus do nothing. -/
theorem returns_of_unlocked {m : Nat} (hm : (s.code c).remaining ≤ m)
    (hmig : (s.code c).migrating = true ∨ s.code c = .out)
    (hcounts : Counts (s.runqueue c) (s.code c)) (hfree : Unlocked c s) :
    ∃ s', Reach (During c) (fun _ d => d = c) s s' ∧ s'.code c = .out := by
  induction m generalizing s with
  | zero =>
      rcases hmig with hmig | hout
      · obtain ⟨s', hs'⟩ := exists_step hmig hcounts hfree
        have := remaining_step hs'
        omega
      · exact ⟨s, .refl, hout⟩
  | succ m ih =>
      rcases hmig with hmig | hout
      · obtain ⟨s', hs'⟩ := exists_step hmig hcounts hfree
        have hlt := remaining_step hs'
        obtain ⟨s'', hrun, hout⟩ := ih (by omega) (code_step hs') (counts_step hcounts hs'.step)
          (unlocked_step hs' hfree)
        have hfirst : Reach (During c) (fun _ d => d = c) s s' := Reach.refl.tail rfl hs'
        exact ⟨s'', hfirst.trans hrun, hout⟩
      · exact ⟨s, .refl, hout⟩

end Steps

/-! ## The call -/

section Call

variable [DecidableEq ω] {s₀ u s : State n ω} {c : Fin n}

/-- What a call keeps. -/
structure CallInv (c : Fin n) (s : State n ω) : Prop where
  inv : Inv s
  counts : Counts (s.runqueue c) (s.code c)
  code : (s.code c).migrating = true ∨ s.code c = .out

theorem CallInv.step {s s' : State n ω} {d : Fin n} (hs : CallInv c s) (h : During c s d s') :
    CallInv c s' := by
  refine ⟨hs.inv.step h.step, counts_step hs.counts h.step, ?_⟩
  by_cases hd : d = c
  · subst hd
    exact code_step h
  · rw [(length_le_of_step h.step (Ne.symm hd)).1]
    exact hs.code

omit [DecidableEq ω] in
theorem callInv_start (h₀ : Inv s₀) (hout : s₀.code c = .out) :
    CallInv c (s₀.callMigration c) := by
  obtain ⟨h₁, h₂, h₃, h₄⟩ := locals_counting (ω := ω) (c := c) 0 0 (List.finRange n)
  have hcode : (s₀.callMigration c).code c = counting 0 0 (List.finRange n) :=
    Function.update_self ..
  refine ⟨h₀.onward (by rw [h₁, hout]; rfl) (by rw [h₂]; nofun) (by rw [h₃]; nofun) h₄, ?_, ?_⟩
  · rw [hcode]
    exact counts_counting (Nat.zero_le _)
  · rw [hcode]
    exact migrating_counting 0 0 _

/-- A call of `thread_consider_migration` on the cpu `c`, from any state in order, with `u` and `s`
states during the call. It never takes a thread from an empty list, its current thread is on the run
queue of no other cpu, only `victims` go to other cpus, none to a cpu that has its share, and when
the call has returned, every thread that was on a run queue in between is on exactly one, that of
its cpu. It returns when it gets the locks. -/
theorem migration_keeps_threads (h₀ : Inv s₀) (hout : s₀.code c = .out)
    (hu : Reach (During c) anyStep (s₀.callMigration c) u) (hs : Reach (During c) anyStep u s) :
    ((∀ share k, s.code c = .gather share k → ∃ r, gather k (s.runqueue c) [] = some r) ∧
      ∀ i rest share k vs, s.code c = .send i rest share k vs →
        ∃ r, sendTo (s.curthread c) share k (s.runqueue i).length vs = some r) ∧
    (∀ i, i ≠ c → s.curthread c ∉ s.runqueue i) ∧
    (∀ s' i, During c s c s' → i ≠ c → s'.runqueue i ≠ s.runqueue i →
      ∃ rest share k vs ts, s.code c = .send i rest share k vs ∧ ts ⊆ vs ∧ s.curthread c ∉ ts ∧
        s'.runqueue i = s.runqueue i ++ ts ∧ (s.runqueue i).length < share ∧
        (s'.runqueue i).length ≤ share) ∧
    (s.code c = .out → ∀ i t, t ∈ u.runqueue i → ∃ j, t ∈ s.runqueue j ∧ s.cpu t = j ∧
      (s.runqueue j).Nodup ∧ ∀ j', t ∈ s.runqueue j' → j' = j) ∧
    (Unlocked c s → ∃ s', Reach (During c) (fun _ d => d = c) s s' ∧ s'.code c = .out) := by
  have hcall : CallInv c s := (hu.trans hs).invariant (fun _ _ _ hx _ hstep => hx.step hstep)
    (callInv_start h₀ hout)
  refine ⟨⟨fun share k hc => ?_, fun i rest share k vs hc => ?_⟩, fun i hi hmem => ?_,
    fun s' i h hi hne => give_step h hi hne, fun hret i t ht => ?_,
    returns_of_unlocked le_rfl hcall.code hcall.counts⟩
  · have hk := hcall.counts
    rw [hc] at hk
    exact exists_gather k _ _ hk
  · have hk := hcall.counts
    rw [hc] at hk
    exact exists_sendTo k _ _ hk
  · exact hi ((hcall.inv.ready i _ hmem).2.symm.trans (hcall.inv.current c).2)
  · have hq : Queued c s t := hs.invariant (fun _ _ _ hx _ hstep => queued_step hstep hx)
      (.inl ⟨i, ht⟩)
    rw [Queued, hret] at hq
    rcases hq with ⟨j, hj⟩ | hv
    · refine ⟨j, hj, (hcall.inv.ready j t hj).2, hcall.inv.once.nodup (.runqueue j),
        fun j' hj' => ?_⟩
      exact Place.runqueue.inj (hcall.inv.once.unique (.runqueue j') (.runqueue j) t hj' hj)
    · cases hv

/-- Two cpus: the first thread of the first one has forked two threads. -/
theorem reach_twoForked : ∃ s : State 2 Unit, Reach Step anyStep (boot 2 Unit Nat.two_pos) s ∧
    s.code 0 = .out ∧ s.runqueue 0 = [2, 3] ∧ s.runqueue 1 = [] ∧
    ∀ i, s.holder (.runqueue i) = none := by
  have start : Reach Step anyStep (boot 2 Unit Nat.two_pos) _ := .refl
  have once := start.tail (a := 0) trivial (@Step.create _ _ _ _ _ 2 rfl rfl rfl rfl)
    |>.tail (a := 0) trivial (.forked rfl rfl rfl)
    |>.tail (a := 0) trivial (.makeRunnable rfl rfl)
    |>.tail (a := 0) trivial (.madeRunnable rfl)
  have twice := once.tail (a := 0) trivial (@Step.create _ _ _ _ _ 3 rfl rfl rfl rfl)
    |>.tail (a := 0) trivial (.forked rfl rfl rfl)
    |>.tail (a := 0) trivial (.makeRunnable rfl rfl)
    |>.tail (a := 0) trivial (.madeRunnable rfl)
  exact ⟨_, twice, rfl, rfl, rfl, by decide⟩

theorem migration_keeps_threads_twoForked : ∃ s₀ s : State 2 Unit,
    Reach Step anyStep (boot 2 Unit Nat.two_pos) s₀ ∧ s₀.runqueue 0 = [2, 3] ∧
    Reach (During 0) anyStep (s₀.callMigration 0) s ∧ s.code 0 = .out ∧
    ∃ j, 3 ∈ s.runqueue j ∧ s.cpu 3 = j ∧ ∀ j', 3 ∈ s.runqueue j' → j' = j := by
  obtain ⟨s₀, hs₀, hout, hqueue, -, hfree⟩ := reach_twoForked
  have hkeeps := fun s => migration_keeps_threads (s := s) (inv_of_reach hs₀) hout .refl
  obtain ⟨-, -, -, -, hreturns⟩ := hkeeps _ .refl
  obtain ⟨s, hs, hret⟩ := hreturns fun i => .inl (hfree i)
  have hs : Reach (During 0) anyStep (s₀.callMigration 0) s := hs.mono fun _ _ _ => trivial
  obtain ⟨-, -, -, hkept, -⟩ := hkeeps s hs
  obtain ⟨j, hj, hcpu, -, hunique⟩ := hkept hret 0 3 (by
    change 3 ∈ s₀.runqueue 0
    rw [hqueue]
    decide)
  exact ⟨s₀, s, hs₀, hqueue, hs, hret, j, hj, hcpu, hunique⟩

end Call

end Os161.Thread

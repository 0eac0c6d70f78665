import Os161.Thread.Switch

set_option autoImplicit false

/-!
# Where the threads are

`State.at` has the threads at every place. `Inv` is the invariant of the steps: every `struct thread`
is at one place, and what that says about its state and its cpu.
-/

namespace Os161.Thread

open Os161.Lib.Places

variable {n : Nat} {ω : Type}

/-- Places of threads. -/
inductive Place (n : Nat) (ω : Type) where
  | runqueue (c : Fin n)
  | zombies (c : Fin n)
  | wchan (w : ω)
  /-- The private list of a `wchan_wakeall` or a migration. -/
  | privateList (c : Fin n)
  /-- A local variable: `target`, or `z` in `exorcise`. -/
  | inHand (c : Fin n)
  /-- `newthread` in `thread_fork`, which the thread `t` has called. -/
  | newthread (t : Tid)
  /-- The current thread of a cpu that is not idle. -/
  | running (c : Fin n)
  deriving DecidableEq

/-- The threads at a place. -/
def State.at (s : State n ω) : Place n ω → List Tid
  | .runqueue c => s.runqueue c
  | .zombies c => s.zombies c
  | .wchan w => s.wcThreads w
  | .privateList c => (s.code c).privateList
  | .inHand c => (s.code c).inHand
  | .newthread t => (s.newthread t).toList
  | .running c => if s.isidle c || (s.code c).isAsleep then [] else [s.curthread c]

/-- Threads in the local variables of a cpu that have run on it last. -/
def Code.ours : Code n ω → List Tid
  | .destroy z => [z]
  | .gathered _ _ victims | .send _ _ _ _ victims | .sent _ _ _ _ victims | .giveBack victims =>
      victims
  | _ => []

/-- Threads in the local variables of a cpu that are ready. -/
def Code.victims : Code n ω → List Tid
  | .gathered _ _ victims | .send _ _ _ _ victims | .sent _ _ _ _ victims | .giveBack victims =>
      victims
  | _ => []

/-- The zombie that is destroyed. -/
def Code.doomed : Code n ω → List Tid
  | .destroy z => [z]
  | _ => []

/-- `thread_exit` has called `thread_switch`. -/
def Code.isExiting : Code n ω → Bool
  | .switching .zombie => true
  | _ => false

/-- The cpu whose run queue is locked. -/
def Code.locked (c : Fin n) : Code n ω → Option (Fin n)
  | .nothing | .asleep _ | .idling | .switched | .gathered _ _ _ | .gaveBack => some c
  | .madeRunnable i _ | .counted i _ _ _ | .sent i _ _ _ _ => some i
  | _ => none

/-- In `thread_switch`, which is not called on an idle cpu, or behind it. -/
def Code.busy : Code n ω → Bool
  | .switching _ | .nothing | .asleep _ | .switched | .exorcise | .destroy _ => true
  | _ => false

/-- The invariant. -/
structure Inv (s : State n ω) : Prop where
  once : Once s.at fun t => s.alive t = true
  ready : ∀ c t, t ∈ s.runqueue c → s.state t = .ready ∧ s.cpu t = c
  zombie : ∀ c t, t ∈ s.zombies c → s.state t = .zombie ∧ s.cpu t = c
  sleep : ∀ w t, t ∈ s.wcThreads w →
    s.state t = .sleep ∨ ∃ c, (s.code c).isAsleep = true ∧ s.curthread c = t
  victims : ∀ c t, t ∈ (s.code c).victims → s.state t = .ready
  ours : ∀ c t, t ∈ (s.code c).ours → s.cpu t = c
  current : ∀ c, s.alive (s.curthread c) = true ∧ s.cpu (s.curthread c) = c
  newthread : ∀ t t', s.newthread t = some t' → ∀ c, s.curthread c ≠ t'
  locked : ∀ c i, (s.code c).locked c = some i → s.holder (.runqueue i) = some c
  asleep : ∀ c, (s.code c).isAsleep = true → (∀ i, s.curthread c ∉ s.runqueue i) ∧
    (∀ i, s.curthread c ∉ s.zombies i) ∧ ∀ i, s.curthread c ∉ (s.code i).ours
  busy : ∀ c, (s.code c).busy = true → s.isidle c = false
  forking : ∀ t, s.newthread t ≠ none → s.alive t = true ∧ (∀ i, t ∉ s.zombies i) ∧
    (∀ i, t ∉ (s.code i).doomed) ∧ ∀ u, s.newthread u ≠ some t
  exiting : ∀ c, (s.code c).isExiting = true → s.newthread (s.curthread c) = none

variable [DecidableEq ω] {s : State n ω} {c : Fin n} {p : Code n ω} {k : Spin n ω} {t : Tid}

omit [DecidableEq ω] in
/-- What does not change at `c` does not change. -/
theorem code_update {α : Type} {code : Fin n → Code n ω} (F : Code n ω → α) (h : F p = F (code c))
    (c' : Fin n) : F (Function.update code c p c') = F (code c') := by
  by_cases hc : c' = c
  · rw [hc, Function.update_self, h]
  · rw [Function.update_of_ne hc]

omit [DecidableEq ω] in
theorem mem_code_update {code : Fin n → Code n ω} {F : Code n ω → List Tid} {c' : Fin n}
    (ht : t ∈ F (Function.update code c p c')) (h : F p = F (code c)) : t ∈ F (code c') := by
  rwa [code_update F h c'] at ht

omit [DecidableEq ω] in
theorem victims_subset (ht : t ∈ p.victims) : t ∈ p.privateList := by
  cases p <;> first | exact ht | cases ht

omit [DecidableEq ω] in
theorem ours_subset (ht : t ∈ p.ours) : t ∈ p.privateList ∨ t ∈ p.inHand := by
  cases p <;> first | exact .inl ht | exact .inr ht | cases ht

omit [DecidableEq ω] in
/-- Places that a step of `c` does not concern. -/
theorem at_eq {s' : State n ω} {P : List (Place n ω)}
    (hqueue : ∀ i, .runqueue i ∉ P → s'.runqueue i = s.runqueue i)
    (hzombies : ∀ i, .zombies i ∉ P → s'.zombies i = s.zombies i)
    (hwchan : ∀ w, .wchan w ∉ P → s'.wcThreads w = s.wcThreads w)
    (hnew : ∀ t, .newthread t ∉ P → s'.newthread t = s.newthread t)
    (hcode : ∀ i, i ≠ c → s'.code i = s.code i ∧ s'.isidle i = s.isidle i ∧
      s'.curthread i = s.curthread i)
    (hpriv : .privateList c ∉ P → (s'.code c).privateList = (s.code c).privateList)
    (hhand : .inHand c ∉ P → (s'.code c).inHand = (s.code c).inHand)
    (hrun : .running c ∉ P → s'.at (.running c) = s.at (.running c)) (q : Place n ω)
    (hq : q ∉ P) : s'.at q = s.at q := by
  cases q with
  | runqueue i => exact hqueue i hq
  | zombies i => exact hzombies i hq
  | wchan w => exact hwchan w hq
  | newthread t => exact congrArg Option.toList (hnew t hq)
  | privateList i =>
      by_cases hi : i = c
      · subst hi
        exact hpriv hq
      · exact congrArg Code.privateList (hcode i hi).1
  | inHand i =>
      by_cases hi : i = c
      · subst hi
        exact hhand hq
      · exact congrArg Code.inHand (hcode i hi).1
  | running i =>
      by_cases hi : i = c
      · subst hi
        exact hrun hq
      · obtain ⟨h₁, h₂, h₃⟩ := hcode i hi
        simp only [State.at, h₁, h₂, h₃]

/-- What is in the local variables. -/
def Code.locals (p : Code n ω) : List Tid × List Tid × List Tid × List Tid × List Tid × Bool :=
  (p.privateList, p.inHand, p.ours, p.victims, p.doomed, p.isAsleep)

omit [DecidableEq ω] in
/-- The cpu goes on, with the same threads in its local variables and perhaps other spinlocks. -/
theorem Inv.recode (h : Inv s) (holder : Spin n ω → Option (Fin n))
    (hlocals : p.locals = (s.code c).locals) (hbusy : p.busy = true → s.isidle c = false)
    (hexit : p.isExiting = true → s.newthread (s.curthread c) = none)
    (hlocked : ∀ i, p.locked c = some i → holder (.runqueue i) = some c)
    (hother : ∀ d i, d ≠ c → s.holder (.runqueue i) = some d → holder (.runqueue i) = some d) :
    Inv ({ s with holder := holder }.goto c p) := by
  simp only [Code.locals, Prod.mk.injEq] at hlocals
  obtain ⟨hpriv, hhand, hours, hvictims, hdoomed, hasleep⟩ := hlocals
  refine ⟨?_, h.ready, h.zombie, fun w t ht => (h.sleep w t ht).imp_right fun ⟨i, hi, hcur⟩ =>
    ⟨i, (code_update Code.isAsleep hasleep i).trans hi, hcur⟩,
    fun i t ht => h.victims i t (mem_code_update ht hvictims),
    fun i t ht => h.ours i t (mem_code_update ht hours), h.current, h.newthread, fun i j hj => ?_,
    fun i hi => ?_, fun i hi => ?_, fun t ht => ?_, fun i hi => ?_⟩
  · refine h.once.rearrange List.nodup_nil (fun q _ => ?_) (List.Perm.refl _)
    cases q with
    | privateList i => exact code_update Code.privateList hpriv i
    | inHand i => exact code_update Code.inHand hhand i
    | running i =>
        have hi := code_update Code.isAsleep hasleep i
        unfold State.at
        exact congrArg (fun b => if s.isidle i || b then [] else [s.curthread i]) hi
    | _ => rfl
  · by_cases hi : i = c
    · subst hi
      exact hlocked j (by simpa [State.goto] using hj)
    · exact hother i j hi (h.locked i j (by simpa [State.goto, hi] using hj))
  · obtain ⟨hq, hz, ho⟩ := h.asleep i ((code_update Code.isAsleep hasleep i).symm.trans hi)
    exact ⟨hq, hz, fun j hj => ho j (mem_code_update hj hours)⟩
  · by_cases hic : i = c
    · subst hic
      exact hbusy (by simpa [State.goto] using hi)
    · exact h.busy i (by simpa [State.goto, hic] using hi)
  · obtain ⟨h₁, h₂, h₃, h₄⟩ := h.forking t ht
    exact ⟨h₁, h₂, fun i hi => h₃ i (mem_code_update hi hdoomed), h₄⟩
  · by_cases hic : i = c
    · subst hic
      exact hexit (by simpa [State.goto] using hi)
    · exact h.exiting i (by simpa [State.goto, hic] using hi)

/-- The thread `t`, which is at `q`, is at no other place. -/
structure Alone (s : State n ω) (q : Place n ω) (t : Tid) : Prop where
  runqueue : ∀ i, q ≠ .runqueue i → t ∉ s.runqueue i
  zombies : ∀ i, q ≠ .zombies i → t ∉ s.zombies i
  wchan : ∀ w, q ≠ .wchan w → t ∉ s.wcThreads w
  privateList : ∀ i, q ≠ .privateList i → t ∉ (s.code i).privateList
  inHand : ∀ i, q ≠ .inHand i → t ∉ (s.code i).inHand
  newthread : ∀ u, q ≠ .newthread u → s.newthread u ≠ some t
  running : ∀ i, q ≠ .running i → s.isidle i = false → (s.code i).isAsleep = false →
    s.curthread i ≠ t

omit [DecidableEq ω] in
theorem Inv.alone (h : Inv s) {q : Place n ω} (ht : t ∈ s.at q) : Alone s q t where
  runqueue i hq := h.once.not_mem ht (.runqueue i) hq
  zombies i hq := h.once.not_mem ht (.zombies i) hq
  wchan w hq := h.once.not_mem ht (.wchan w) hq
  privateList i hq := h.once.not_mem ht (.privateList i) hq
  inHand i hq := h.once.not_mem ht (.inHand i) hq
  newthread u hq he := h.once.not_mem ht (.newthread u) hq (by simp [State.at, he])
  running i hq hidle hasleep he :=
    h.once.not_mem ht (.running i) hq (by simp [State.at, hidle, hasleep, he])

omit [DecidableEq ω] in
theorem Alone.victims {q : Place n ω} (h : Alone s q t) {i : Fin n} (hq : q ≠ .privateList i) :
    t ∉ (s.code i).victims := fun ht => h.privateList i hq (victims_subset ht)

omit [DecidableEq ω] in
theorem Alone.ours {q : Place n ω} (h : Alone s q t) {i : Fin n} (hq : q ≠ .privateList i)
    (hq' : q ≠ .inHand i) : t ∉ (s.code i).ours := fun ht =>
  (ours_subset ht).elim (h.privateList i hq) (h.inHand i hq')

omit [DecidableEq ω] in
theorem Inv.eq_of_curthread (h : Inv s) {i : Fin n} (ht : s.curthread i = s.curthread c) : i = c := by
  rw [← (h.current i).2, ht, (h.current c).2]

omit [DecidableEq ω] in
/-- The loop that looks for a thread finds one. -/
theorem Inv.take {next : Tid} {rest : List Tid} (h : Inv s) (hc : s.code c = .idling)
    (hq : s.runqueue c = next :: rest) (hidle : s.isidle c = true) :
    Inv ({ s with
      runqueue := Function.update s.runqueue c rest
      isidle := Function.update s.isidle c false
      curthread := Function.update s.curthread c next
      state := Function.update s.state next .run }.goto c .switched) := by
  have hnext : next ∈ s.runqueue c := by simp [hq]
  have halone := h.alone (q := .runqueue c) hnext
  have hnodup : next ∉ rest := by
    have := h.once.nodup (.runqueue c)
    rw [State.at, hq] at this
    exact (List.nodup_cons.1 this).1
  -- what is on a list is not the thread that is taken
  have hqueue : ∀ {i t}, t ∈ Function.update s.runqueue c rest i → t ∈ s.runqueue i ∧ t ≠ next := by
    intro i t ht
    by_cases hi : i = c
    · subst hi
      rw [Function.update_self] at ht
      refine ⟨by simp [hq, ht], ?_⟩
      rintro rfl
      exact hnodup ht
    · rw [Function.update_of_ne hi] at ht
      refine ⟨ht, ?_⟩
      rintro rfl
      exact halone.runqueue i (fun e => hi (Place.runqueue.inj e).symm) ht
  have hstate : ∀ {t}, t ≠ next → Function.update s.state next .run t = s.state t := fun hne =>
    Function.update_of_ne hne _ _
  have hours : (Code.switched : Code n ω).ours = (s.code c).ours := by rw [hc]; rfl
  have hvictims : (Code.switched : Code n ω).victims = (s.code c).victims := by rw [hc]; rfl
  have hasleep : (Code.switched : Code n ω).isAsleep = (s.code c).isAsleep := by rw [hc]; rfl
  have hdoomed : (Code.switched : Code n ω).doomed = (s.code c).doomed := by rw [hc]; rfl
  refine ⟨?_, fun i t ht => ?_, fun i t ht => ?_, fun w t ht => ?_, fun i t ht => ?_,
    fun i t ht => h.ours i t (mem_code_update ht hours), fun i => ?_, fun u t hu i => ?_,
    fun i j hj => ?_, fun i hi => ?_, fun i hi => ?_, fun u hu => ?_, fun i hi => ?_⟩
  · refine h.once.rearrange (P := [.running c, .runqueue c]) (by simp) (at_eq (c := c)
      (fun i hi => Function.update_of_ne (by simpa using hi) _ _) (fun _ _ => rfl) (fun _ _ => rfl)
      (fun _ _ => rfl) (fun i hi => by simp [State.goto, hi]) (fun _ => ?_) (fun _ => ?_)
      fun hnot => absurd List.mem_cons_self hnot) ?_
    · simp [State.goto, hc, Code.privateList]
    · simp [State.goto, hc, Code.inHand]
    · simp [State.at, State.goto, hq, hc, hidle, Code.isAsleep]
  · obtain ⟨hold, hne⟩ := hqueue ht
    exact ⟨(hstate hne).trans (h.ready i t hold).1, (h.ready i t hold).2⟩
  · have hne : t ≠ next := by
      rintro rfl
      exact halone.zombies i nofun ht
    exact ⟨(hstate hne).trans (h.zombie i t ht).1, (h.zombie i t ht).2⟩
  · have hne : t ≠ next := by
      rintro rfl
      exact halone.wchan w nofun ht
    refine (h.sleep w t ht).imp (hstate hne).trans fun ⟨i, hi, hcur⟩ => ?_
    have hic : i ≠ c := by
      rintro rfl
      rw [hc] at hi
      cases hi
    exact ⟨i, (code_update Code.isAsleep hasleep i).trans hi,
      (Function.update_of_ne hic _ _).trans hcur⟩
  · replace ht := mem_code_update ht hvictims
    have hne : t ≠ next := by
      rintro rfl
      exact halone.victims nofun ht
    exact (hstate hne).trans (h.victims i t ht)
  · by_cases hi : i = c
    · subst hi
      simp only [State.goto, Function.update_self]
      exact ⟨h.once.mem (.runqueue i) hnext, (h.ready i next hnext).2⟩
    · simpa [State.goto, hi] using h.current i
  · by_cases hi : i = c
    · subst hi
      simp only [State.goto, Function.update_self]
      rintro rfl
      exact halone.newthread u nofun hu
    · simpa [State.goto, hi] using h.newthread u t hu i
  · by_cases hi : i = c
    · subst hi
      replace hj : (Code.switched : Code n ω).locked i = some j := by simpa [State.goto] using hj
      exact h.locked i j (by rw [hc]; exact hj)
    · exact h.locked i j (by simpa [State.goto, hi] using hj)
  · replace hi := (code_update Code.isAsleep hasleep i).symm.trans hi
    have hic : i ≠ c := by
      rintro rfl
      rw [hc] at hi
      cases hi
    obtain ⟨h₁, h₂, h₃⟩ := h.asleep i hi
    simp only [State.goto, Function.update_of_ne hic]
    exact ⟨fun j hj => h₁ j (hqueue hj).1, h₂, fun j hj => h₃ j (mem_code_update hj hours)⟩
  · by_cases hic : i = c
    · subst hic
      simp [State.goto]
    · simpa [State.goto, hic] using h.busy i (by simpa [State.goto, hic] using hi)
  · obtain ⟨h₁, h₂, h₃, h₄⟩ := h.forking u hu
    exact ⟨h₁, h₂, fun i hi => h₃ i (mem_code_update hi hdoomed), h₄⟩
  · have hic : i ≠ c := by
      rintro rfl
      simp [State.goto, Code.isExiting] at hi
    simpa [State.goto, hic] using h.exiting i (by simpa [State.goto, hic] using hi)

omit [DecidableEq ω] in
/-- The current thread is only running. -/
theorem Inv.current_alone (h : Inv s) (hidle : s.isidle c = false)
    (hasleep : (s.code c).isAsleep = false) : Alone s (.running c) (s.curthread c) :=
  h.alone (by simp [State.at, hidle, hasleep])

omit [DecidableEq ω] in
theorem Inv.ne_current (h : Inv s) (i : Fin n) (hi : i ≠ c) : s.curthread i ≠ s.curthread c :=
  fun he => hi (h.eq_of_curthread he)

/-- `case S_READY`. -/
theorem Inv.fileReady (h : Inv s) (hc : s.code c = .switching .ready)
    (hlock : s.holder (.runqueue c) = none) :
    Inv ({ (s.lock c (.runqueue c)).enqueue (s.curthread c) with
      isidle := Function.update s.isidle c true }.goto c .idling) := by
  have hidle : s.isidle c = false := h.busy c (by rw [hc]; rfl)
  have hcpu := (h.current c).2
  have halone := h.current_alone hidle (by rw [hc]; rfl)
  have hz : ∀ i, s.curthread c ∉ s.zombies i := fun i => halone.zombies i nofun
  have hw : ∀ w, s.curthread c ∉ s.wcThreads w := fun w => halone.wchan w nofun
  have hv : ∀ i, s.curthread c ∉ (s.code i).victims := fun i => halone.victims nofun
  have hne := h.ne_current (c := c)
  obtain ⟨once, ready, zombie, sleep, victims, ours, current, newthread, locked, asleep, busy,
    forking, exiting⟩ := h
  simp only [State.goto, State.enqueue, State.lock, hcpu]
  constructor
  · refine once.rearrange (P := [.running c, .runqueue c]) (by simp) (at_eq (c := c)
      (fun i hi => Function.update_of_ne (by simpa using hi) _ _) (fun _ _ => rfl) (fun _ _ => rfl)
      (fun _ _ => rfl) (fun i hi => by simp [hi]) (fun _ => ?_) (fun _ => ?_)
      fun hnot => absurd List.mem_cons_self hnot) ?_
    · simp [hc, Code.privateList]
    · simp [hc, Code.inHand]
    · simp [State.at, hc, hidle, Code.isAsleep]
  all_goals grind [Function.update, Code.isAsleep, Code.victims, Code.ours, Code.locked, Code.busy,
    Code.doomed, Code.isExiting]

/-- `case S_SLEEP`. -/
theorem Inv.fileSleep {w : ω} (h : Inv s) (hc : s.code c = .switching (.sleep w))
    (hlock : s.holder (.runqueue c) = none) :
    Inv ({ s.lock c (.runqueue c) with
      wcThreads := Function.update s.wcThreads w (s.wcThreads w ++ [s.curthread c]) }.goto c
        (.asleep w)) := by
  have hidle : s.isidle c = false := h.busy c (by rw [hc]; rfl)
  have halone := h.current_alone hidle (by rw [hc]; rfl)
  have hq : ∀ i, s.curthread c ∉ s.runqueue i := fun i => halone.runqueue i nofun
  have hz : ∀ i, s.curthread c ∉ s.zombies i := fun i => halone.zombies i nofun
  have ho : ∀ i, s.curthread c ∉ (s.code i).ours := fun i => halone.ours nofun nofun
  have hne := h.ne_current (c := c)
  obtain ⟨once, ready, zombie, sleep, victims, ours, current, newthread, locked, asleep, busy,
    forking, exiting⟩ := h
  simp only [State.goto, State.lock]
  constructor
  · refine once.rearrange (P := [.running c, .wchan w]) (by simp) (at_eq (c := c)
      (fun _ _ => rfl) (fun _ _ => rfl)
      (fun i hi => Function.update_of_ne (by simpa using hi) _ _)
      (fun _ _ => rfl) (fun i hi => by simp [hi]) (fun _ => ?_) (fun _ => ?_)
      fun hnot => absurd List.mem_cons_self hnot) ?_
    · simp [hc, Code.privateList]
    · simp [hc, Code.inHand]
    · simp [State.at, hc, hidle, Code.isAsleep]
  all_goals grind [Function.update, Code.isAsleep, Code.victims, Code.ours, Code.locked, Code.busy,
    Code.doomed, Code.isExiting]

/-- `case S_ZOMBIE`. -/
theorem Inv.fileZombie (h : Inv s) (hc : s.code c = .switching .zombie)
    (hlock : s.holder (.runqueue c) = none) :
    Inv ({ { s.lock c (.runqueue c) with
      zombies := Function.update s.zombies c (s.zombies c ++ [s.curthread c]) }.setState
        (s.curthread c) .zombie with isidle := Function.update s.isidle c true }.goto c .idling) := by
  have hidle : s.isidle c = false := h.busy c (by rw [hc]; rfl)
  have hcpu := (h.current c).2
  have halone := h.current_alone hidle (by rw [hc]; rfl)
  have hq : ∀ i, s.curthread c ∉ s.runqueue i := fun i => halone.runqueue i nofun
  have hw : ∀ w, s.curthread c ∉ s.wcThreads w := fun w => halone.wchan w nofun
  have hv : ∀ i, s.curthread c ∉ (s.code i).victims := fun i => halone.victims nofun
  have hne := h.ne_current (c := c)
  obtain ⟨once, ready, zombie, sleep, victims, ours, current, newthread, locked, asleep, busy,
    forking, exiting⟩ := h
  simp only [State.goto, State.setState, State.lock]
  constructor
  · refine once.rearrange (P := [.running c, .zombies c]) (by simp) (at_eq (c := c)
      (fun _ _ => rfl) (fun i hi => Function.update_of_ne (by simpa using hi) _ _) (fun _ _ => rfl)
      (fun _ _ => rfl) (fun i hi => by simp [hi]) (fun _ => ?_) (fun _ => ?_)
      fun hnot => absurd List.mem_cons_self hnot) ?_
    · simp [hc, Code.privateList]
    · simp [hc, Code.inHand]
    · simp [State.at, hc, hidle, Code.isAsleep]
  all_goals grind [Function.update, Code.isAsleep, Code.victims, Code.ours, Code.locked, Code.busy,
    Code.doomed, Code.isExiting]

/-- `spinlock_release(lk)` and `cur->t_state = newstate`. -/
theorem Inv.releaseLk {w : ω} (h : Inv s) (hc : s.code c = .asleep w) :
    Inv ({ (s.unlock (.lk w)).setState (s.curthread c) .sleep with
      isidle := Function.update s.isidle c true }.goto c .idling) := by
  obtain ⟨hq, hz, ho⟩ := h.asleep c (by rw [hc]; rfl)
  have hv : ∀ i, s.curthread c ∉ (s.code i).victims := by
    intro i hi
    refine ho i ?_
    cases hp : s.code i <;> rw [hp] at hi <;> first | exact hi | cases hi
  have hne := h.ne_current (c := c)
  obtain ⟨once, ready, zombie, sleep, victims, ours, current, newthread, locked, asleep, busy,
    forking, exiting⟩ := h
  simp only [State.goto, State.setState, State.unlock]
  constructor
  · refine once.rearrange List.nodup_nil (at_eq (c := c) (fun _ _ => rfl) (fun _ _ => rfl)
      (fun _ _ => rfl) (fun _ _ => rfl) (fun i hi => by simp [hi]) (fun _ => ?_) (fun _ => ?_)
      fun _ => ?_) (List.Perm.refl _)
    · simp [hc, Code.privateList]
    · simp [hc, Code.inHand]
    · simp [State.at, hc, Code.isAsleep]
  all_goals grind [Function.update, Code.isAsleep, Code.victims, Code.ours, Code.locked, Code.busy,
    Code.doomed, Code.isExiting]

end Os161.Thread

import Os161.Thread.Moves

set_option autoImplicit false

/-!
# Every thread is in one place

What holds in every state that can be reached, and that the loops of `thread_consider_migration`
never take a thread from an empty list.
-/

namespace Os161.Thread

open Os161.Lib.Places Os161.Lib.Runs

variable {n : Nat} {ω : Type} [DecidableEq ω] {s s' : State n ω} {c : Fin n} {t : Tid}

omit [DecidableEq ω] in
theorem inv_boot (hn : 0 < n) : Inv (boot n ω hn) := by
  have hrunning : ∀ t c, t ∈ (boot n ω hn).at (.running c) ↔ t = c := fun t c => by
    simp [State.at, boot, Code.isAsleep]
  have hplace : ∀ t p, t ∈ (boot n ω hn).at p ↔ ∃ c : Fin n, p = .running c ∧ t = c := by
    intro t p
    cases p with
    | running c => simp [hrunning]
    | _ => simp [State.at, boot, Code.privateList, Code.inHand]
  refine ⟨⟨fun p => ?_, fun p q t hp hq => ?_, fun t => ?_⟩, ?_, ?_, ?_, ?_, ?_,
    fun c => ?_, ?_, ?_, ?_, ?_, fun t ht => absurd rfl ht, ?_⟩
  -- no CPU has code to run, and every list but the running threads is empty
  any_goals intros; contradiction
  · cases p <;> simp [State.at, boot, Code.privateList, Code.inHand, Code.isAsleep]
  · obtain ⟨c, rfl, hc⟩ := (hplace t p).1 hp
    obtain ⟨d, rfl, hd⟩ := (hplace t q).1 hq
    rw [Fin.ext (hc.symm.trans hd)]
  · constructor
    · intro ht
      have hlt : t < n := by simpa [boot] using ht
      exact ⟨.running ⟨t, hlt⟩, (hrunning t ⟨t, hlt⟩).2 rfl⟩
    · rintro ⟨p, hp⟩
      obtain ⟨c, rfl, rfl⟩ := (hplace t p).1 hp
      simp [boot]
  · simp only [boot, decide_eq_true_eq]
    exact ⟨c.isLt, Fin.ext (Nat.mod_eq_of_lt c.isLt)⟩

omit [DecidableEq ω] in
theorem Inv.pick (h : Inv ({ s with isidle := Function.update s.isidle c true }.goto c .idling)) :
    Inv (s.pick c) := by
  unfold State.pick
  split
  · exact h
  · rename_i next rest hq
    have hnext := h.take (c := c) (by simp [State.goto]) hq (by simp [State.goto])
    simpa [State.goto] using hnext

/-! ## Steps that only go on -/

omit [DecidableEq ω] in
theorem Inv.onward {p : Code n ω} (h : Inv s) (hlocals : p.locals = (s.code c).locals)
    (hbusy : p.busy = true → s.isidle c = false)
    (hexit : p.isExiting = true → s.newthread (s.curthread c) = none)
    (hlocked : p.locked c = none) : Inv (s.goto c p) :=
  h.recode s.holder hlocals hbusy hexit (fun i hi => by rw [hlocked] at hi; cases hi)
    fun _ _ _ hd => hd

theorem Inv.acquired {p : Code n ω} {i : Fin n} (h : Inv s)
    (hlock : s.holder (.runqueue i) = none) (hlocals : p.locals = (s.code c).locals)
    (hbusy : p.busy = true → s.isidle c = false) (hexit : p.isExiting = false)
    (hlocked : p.locked c = some i) : Inv ((s.lock c (.runqueue i)).goto c p) := by
  refine h.recode _ hlocals hbusy (fun he => by rw [hexit] at he; cases he) (fun j hj => ?_)
    fun d j hd hj => ?_
  · rw [hlocked] at hj
    cases hj
    exact Function.update_self ..
  · have hne : j ≠ i := by
      rintro rfl
      rw [hlock] at hj
      cases hj
    exact (Function.update_of_ne (by simpa using hne) _ _).trans hj

theorem Inv.released {p : Code n ω} {i : Fin n} (h : Inv s) (hold : (s.code c).locked c = some i)
    (hlocals : p.locals = (s.code c).locals) (hbusy : p.busy = true → s.isidle c = false)
    (hexit : p.isExiting = false) (hlocked : p.locked c = none) :
    Inv ((s.unlock (.runqueue i)).goto c p) := by
  refine h.recode _ hlocals hbusy (fun he => by rw [hexit] at he; cases he)
    (fun j hj => by rw [hlocked] at hj; cases hj) fun d j hd hj => ?_
  have hne : j ≠ i := by
    rintro rfl
    rw [h.locked c j hold] at hj
    exact hd (Option.some.inj hj).symm
  exact (Function.update_of_ne (by simpa using hne) _ _).trans hj

/-- The spinlocks of wait channels. -/
theorem Inv.spin {w : ω} (h : Inv s) (x : Option (Fin n)) :
    Inv { s with holder := Function.update s.holder (.lk w) x } := by
  refine ⟨?_, h.ready, h.zombie, h.sleep, h.victims, h.ours, h.current, h.newthread, ?_, h.asleep,
    h.busy, h.forking, h.exiting⟩
  · exact h.once.rearrange List.nodup_nil (fun q _ => by cases q <;> rfl) (List.Perm.refl _)
  · intro i j hj
    have hne : (.runqueue j : Spin n ω) ≠ .lk w := by simp
    change Function.update s.holder (.lk w) x (.runqueue j) = some i
    rw [Function.update_of_ne hne]
    exact h.locked i j hj

omit [DecidableEq ω] in
theorem locals_counting (my total : Nat) (l : List (Fin n)) :
    (counting my total l : Code n ω).locals = ([], [], [], [], [], false) ∧
      (counting my total l : Code n ω).busy = false ∧
      (counting my total l : Code n ω).isExiting = false ∧
      (counting my total l : Code n ω).locked c = none := by
  unfold counting
  split
  · dsimp only
    split <;> exact ⟨rfl, rfl, rfl, rfl⟩
  · exact ⟨rfl, rfl, rfl, rfl⟩

omit [DecidableEq ω] in
theorem locals_finish (vs : List Tid) :
    (finish vs : Code n ω).locals = (vs, [], vs, vs, [], false) ∧
      (finish vs : Code n ω).busy = false ∧ (finish vs : Code n ω).isExiting = false ∧
      (finish vs : Code n ω).locked c = none := by
  cases vs <;> exact ⟨rfl, rfl, rfl, rfl⟩

omit [DecidableEq ω] in
theorem locals_sending (share k : Nat) (vs : List Tid) (l : List (Fin n)) :
    (sending c share k vs l : Code n ω).locals = (vs, [], vs, vs, [], false) ∧
      (sending c share k vs l : Code n ω).busy = false ∧
      (sending c share k vs l : Code n ω).isExiting = false ∧
      (sending c share k vs l : Code n ω).locked c = none := by
  induction l with
  | nil => exact locals_finish vs
  | cons i rest ih =>
      unfold sending
      split
      · exact locals_finish vs
      · split
        · exact ih
        · exact ⟨rfl, rfl, rfl, rfl⟩

/-- Step lemma. -/
theorem Inv.step (h : Inv s) (hstep : Step s c s') : Inv s' := by
  cases hstep with
  | acquire => exact h.spin (some c)
  | release => exact h.spin none
  | create hc hidle hnone ht => exact h.create hc hidle hnone ht
  | failed _ _ ht => exact h.failed ht
  | forked hc _ ht => exact h.forked hc ht
  | yield hc hidle => exact h.onward (by rw [hc]; rfl) (fun _ => hidle) nofun rfl
  | exit hc hidle hnone => exact h.onward (by rw [hc]; rfl) (fun _ => hidle) (fun _ => hnone) rfl
  | sleep hc hidle => exact h.onward (by rw [hc]; rfl) (fun _ => hidle) nofun rfl
  | nothingToDo hc hlock =>
      exact h.acquired hlock (by rw [hc]; rfl) (fun _ => h.busy c (by rw [hc]; rfl)) rfl rfl
  | switchReady hc hlock => exact (h.fileReady hc hlock).pick
  | switchSleep hc hlock => exact h.fileSleep hc hlock
  | switchZombie hc hlock => exact (h.fileZombie hc hlock).pick
  | releaseLk hc => exact (h.releaseLk hc).pick
  | idle hc => exact h.released (by rw [hc]; rfl) (by rw [hc]; rfl) nofun rfl rfl
  | unidle hc hidle _ hlock =>
      refine Inv.pick ?_
      have hnext : Inv ((s.lock c (.runqueue c)).goto c .idling) :=
        h.acquired hlock (by rw [hc]; rfl) nofun rfl rfl
      have hsame : Function.update (s.lock c (.runqueue c)).isidle c true = s.isidle := by
        rw [← hidle]
        exact Function.update_eq_self ..
      rw [hsame]
      exact hnext
  | stay hc => exact h.released (by rw [hc]; rfl) (by rw [hc]; rfl) nofun rfl rfl
  | resume hc =>
      exact h.released (by rw [hc]; rfl) (by rw [hc]; rfl) (fun _ => h.busy c (by rw [hc]; rfl)) rfl
        rfl
  | exorcised hc => exact h.onward (by rw [hc]; rfl) nofun nofun rfl
  | zombie hc hz => exact h.exorcise hc hz
  | destroy hc => exact h.destroy hc
  | wakeone hc _ hw => exact h.wake hc hw
  | wakeall hc _ => exact h.wake hc (List.append_nil _).symm
  | makeRunnable hc hlock => exact h.makeRunnable hc hlock
  | madeRunnable hc => exact h.madeRunnable hc
  | migration hc =>
      obtain ⟨h₁, h₂, h₃, h₄⟩ := locals_counting (ω := ω) (c := c) 0 0 (List.finRange n)
      exact h.onward (by rw [h₁, hc]; rfl) (by rw [h₂]; nofun) (by rw [h₃]; nofun) h₄
  | count hc hlock => exact h.acquired hlock (by rw [hc]; rfl) nofun rfl rfl
  | @counted i rest my total hc =>
      obtain ⟨h₁, h₂, h₃, h₄⟩ := locals_counting (ω := ω) (c := c) my total rest
      exact h.released (by rw [hc]; rfl) (by rw [h₁, hc]; rfl) (by rw [h₂]; nofun) h₃ h₄
  | gather hc hlock hrun =>
      have happ := (gather_append hrun).1
      rw [List.append_nil] at happ
      exact h.gather hc hlock happ
  | @gathered share k vs hc =>
      obtain ⟨h₁, h₂, h₃, h₄⟩ := locals_sending (ω := ω) (c := c) share k vs (List.finRange n)
      exact h.released (by rw [hc]; rfl) (by rw [h₁, hc]; rfl) (by rw [h₂]; nofun) h₃ h₄
  | send hc hlock hrun =>
      obtain ⟨hperm, hcur, -⟩ := sendTo_perm hrun
      exact h.send hc hlock hperm hcur
  | @sent i rest share k vs hc =>
      obtain ⟨h₁, h₂, h₃, h₄⟩ := locals_sending (ω := ω) (c := c) share k vs rest
      exact h.released (by rw [hc]; rfl) (by rw [h₁, hc]; rfl) (by rw [h₂]; nofun) h₃ h₄
  | giveBack hc hlock => exact h.giveBack hc hlock
  | gaveBack hc => exact h.released (by rw [hc]; rfl) (by rw [hc]; rfl) nofun rfl rfl

theorem inv_of_reach {hn : 0 < n} (h : Reach Step anyStep (boot n ω hn) s) : Inv s :=
  h.invariant (fun _ _ _ hs _ hstep => hs.step hstep) (inv_boot hn)

/-! ## Counts of threads -/

/-- What `thread_consider_migration` knows about the lengths of lists. -/
def Counts (queue : List Tid) : Code n ω → Prop
  | .count _ _ my _ | .counted _ _ my _ => my ≤ queue.length
  | .gather _ k => k ≤ queue.length
  | .gathered _ k vs | .send _ _ _ k vs | .sent _ _ _ k vs => k ≤ vs.length
  | _ => True

omit [DecidableEq ω] in
theorem Counts.mono {queue queue' : List Tid} {p : Code n ω} (h : Counts queue p)
    (hle : queue.length ≤ queue'.length) : Counts queue' p := by
  cases p with
  | count | counted | gather => exact Nat.le_trans h hle
  | _ => exact h

omit [DecidableEq ω] in
theorem counts_counting {queue : List Tid} {my total : Nat} {l : List (Fin n)}
    (h : my ≤ queue.length) : Counts queue (counting my total l : Code n ω) := by
  unfold counting
  split
  · dsimp only
    split
    · trivial
    · exact Nat.le_trans (Nat.sub_le _ _) h
  · exact h

omit [DecidableEq ω] in
theorem counts_finish {queue vs : List Tid} : Counts queue (finish vs : Code n ω) := by
  cases vs <;> trivial

omit [DecidableEq ω] in
theorem counts_sending {queue vs : List Tid} {share k : Nat} {l : List (Fin n)}
    (h : k ≤ vs.length) : Counts queue (sending c share k vs l : Code n ω) := by
  induction l with
  | nil => exact counts_finish
  | cons i rest ih =>
      unfold sending
      split
      · exact counts_finish
      · split
        · exact ih
        · exact h

omit [DecidableEq ω] in
theorem pick_other {i : Fin n} (hi : i ≠ c) :
    (s.pick c).code i = s.code i ∧ (s.pick c).runqueue i = s.runqueue i := by
  unfold State.pick
  split <;> simp [State.goto, hi]

omit [DecidableEq ω] in
theorem length_le_append (i j : Fin n) (ts : List Tid) :
    (s.runqueue i).length ≤ ((s.append j ts).runqueue i).length := by
  by_cases hij : i = j
  · subst hij
    simp [State.append]
  · simp [State.append, hij]

/-- The run queue of another cpu does not get shorter. -/
theorem length_le_of_step (hstep : Step s c s') {i : Fin n} (hi : i ≠ c) :
    s'.code i = s.code i ∧ (s.runqueue i).length ≤ (s'.runqueue i).length := by
  have hgoto : ∀ (u : State n ω) (p : Code n ω), (u.goto c p).code i = u.code i := fun u p =>
    Function.update_of_ne hi _ _
  cases hstep with
  | switchReady =>
      rw [(pick_other hi).1, (pick_other hi).2]
      exact ⟨rfl, length_le_append (s := s.lock c _) _ _ _⟩
  | switchZombie | releaseLk | unidle =>
      rw [(pick_other hi).1, (pick_other hi).2]
      exact ⟨rfl, Nat.le_refl _⟩
  | makeRunnable | send | giveBack => exact ⟨hgoto _ _, length_le_append (s := s.lock c _) _ _ _⟩
  | gather =>
      refine ⟨hgoto _ _, Nat.le_of_eq ?_⟩
      simp [State.goto, State.lock, hi]
  | acquire | release | create | failed => exact ⟨rfl, Nat.le_refl _⟩
  | _ => exact ⟨hgoto _ _, Nat.le_refl _⟩

theorem counts_step {i : Fin n} (hi : Counts (s.runqueue i) (s.code i)) (hstep : Step s c s') :
    Counts (s'.runqueue i) (s'.code i) := by
  by_cases hic : i = c
  · subst hic
    have hpick : ∀ u : State n ω, Counts ((u.pick i).runqueue i) ((u.pick i).code i) := by
      intro u
      unfold State.pick
      split <;> simp [State.goto, Counts]
    have hgoto : ∀ (u : State n ω) (p : Code n ω), Counts (u.runqueue i) p →
        Counts ((u.goto i p).runqueue i) ((u.goto i p).code i) := by
      intro u p hp
      simpa [State.goto] using hp
    cases hstep with
    | acquire hc | release hc | create hc | failed hc => exact hi
    | switchReady | switchZombie | releaseLk | unidle => exact hpick _
    | migration => exact hgoto _ _ (counts_counting (Nat.zero_le _))
    | @count j rest my total hc =>
        rw [hc] at hi
        refine hgoto _ _ ?_
        change (if j = i then (s.runqueue j).length else my) ≤ (s.runqueue i).length
        split
        · rename_i hji
          rw [hji]
        · exact hi
    | counted hc =>
        rw [hc] at hi
        exact hgoto _ _ (counts_counting hi)
    | gather hc hlock hrun =>
        refine hgoto _ _ ?_
        have := (gather_append hrun).2
        rw [List.length_nil, Nat.zero_add] at this
        exact Nat.le_of_eq this.symm
    | gathered hc =>
        rw [hc] at hi
        exact hgoto _ _ (counts_sending hi)
    | send hc hlock hrun =>
        rw [hc] at hi
        exact hgoto _ _ ((sendTo_perm hrun).2.2 hi)
    | sent hc =>
        rw [hc] at hi
        exact hgoto _ _ (counts_sending hi)
    | wakeone | wakeall | madeRunnable =>
        refine hgoto _ _ ?_
        unfold waking
        split <;> trivial
    | _ => exact hgoto _ _ trivial
  · obtain ⟨hcode, hlen⟩ := length_le_of_step hstep hic
    rw [hcode]
    exact hi.mono hlen

/-- `thread_consider_migration` never takes a thread from an empty list. -/
theorem migration_finds_threads {hn : 0 < n} (h : Reach Step anyStep (boot n ω hn) s) :
    (∀ share k, s.code c = .gather share k → ∃ r, gather k (s.runqueue c) [] = some r) ∧
    ∀ i rest share k vs, s.code c = .send i rest share k vs →
      ∃ r, sendTo (s.curthread c) share k (s.runqueue i).length vs = some r := by
  have hboot : ∀ i, Counts ((boot n ω hn).runqueue i) ((boot n ω hn).code i) := fun _ => trivial
  have hcounts := h.invariant (I := fun s => ∀ i, Counts (s.runqueue i) (s.code i))
    (fun _ _ _ hs _ hstep i => counts_step (hs i) hstep) hboot
  constructor
  · intro share k hc
    have hk := hcounts c
    rw [hc] at hk
    exact exists_gather k _ _ hk
  · intro i rest share k vs hc
    have hk := hcounts c
    rw [hc] at hk
    exact exists_sendTo k _ _ hk

/-! ## The main theorem -/

/-- While no run queue is locked, every thread is at exactly one place, the current thread of a cpu
that is not idle is on no list, and the threads on a list have the state for it. -/
theorem threads_in_one_place {hn : 0 < n} (h : Reach Step anyStep (boot n ω hn) s)
    (hfree : ∀ i, s.holder (.runqueue i) = none) :
    (∀ t, s.alive t = true ↔ ∃ p, t ∈ s.at p) ∧ (∀ p, (s.at p).Nodup) ∧
    (∀ p q t, t ∈ s.at p → t ∈ s.at q → p = q) ∧
    (∀ i, s.at (.running i) = if s.isidle i then [] else [s.curthread i]) ∧
    (∀ i t, t ∈ s.runqueue i → s.state t = .ready ∧ s.cpu t = i) ∧
    (∀ w t, t ∈ s.wcThreads w → s.state t = .sleep) ∧
    ∀ i t, t ∈ s.zombies i → s.state t = .zombie := by
  have hs := inv_of_reach h
  have hasleep : ∀ i, (s.code i).isAsleep = false := by
    intro i
    by_contra hi
    have hlock := hs.locked i i (locked_of_isAsleep (by simpa using hi))
    rw [hfree i] at hlock
    cases hlock
  refine ⟨hs.once.mem_iff, hs.once.nodup, hs.once.unique, fun i => ?_, hs.ready, fun w t ht => ?_,
    fun i t ht => (hs.zombie i t ht).1⟩
  · simp [State.at, hasleep i]
  · refine (hs.sleep w t ht).resolve_right ?_
    rintro ⟨i, hi, -⟩
    rw [hasleep i] at hi
    cases hi

/-- One cpu: its first thread has forked a thread, and sleeps; the new thread wakes it. -/
theorem reach_wakeone : ∃ s : State 1 Unit, Reach Step anyStep (boot 1 Unit Nat.one_pos) s ∧
    (∀ i, s.holder (.runqueue i) = none) ∧ s.alive 0 = true ∧ s.isidle 0 = false ∧
    s.curthread 0 = 1 ∧ s.runqueue 0 = [] ∧ s.zombies 0 = [] ∧ s.wcThreads () = [] ∧
    s.code 0 = .makeRunnable 0 [] := by
  have start : Reach Step anyStep (boot 1 Unit Nat.one_pos) _ := .refl
  have forked := start.tail (a := 0) trivial (@Step.create _ _ _ _ _ 1 rfl rfl rfl rfl)
    |>.tail (a := 0) trivial (.forked rfl rfl rfl)
    |>.tail (a := 0) trivial (.makeRunnable rfl rfl)
    |>.tail (a := 0) trivial (.madeRunnable rfl)
  have asleep := forked.tail (a := 0) trivial (@Step.acquire _ _ _ _ _ () rfl rfl)
    |>.tail (a := 0) trivial (@Step.sleep _ _ _ _ _ () rfl rfl rfl rfl fun k hk => by
      cases k with
      | runqueue i =>
          rw [Subsingleton.elim i 0]
          decide
      | lk w => exact absurd rfl hk)
    |>.tail (a := 0) trivial (.switchSleep rfl rfl)
    |>.tail (a := 0) trivial (.releaseLk rfl)
    |>.tail (a := 0) trivial (.resume rfl)
    |>.tail (a := 0) trivial (.exorcised rfl rfl)
  have woken := asleep.tail (a := 0) trivial (@Step.acquire _ _ _ _ _ () rfl rfl)
    |>.tail (a := 0) trivial (@Step.wakeone _ _ _ _ _ () 0 [] rfl rfl rfl)
  exact ⟨_, woken, by decide, rfl, rfl, rfl, rfl, rfl, rfl, rfl⟩

theorem threads_in_one_place_wakeone : ∃ s : State 1 Unit, s.code 0 = .makeRunnable 0 [] ∧
    (∀ p, 0 ∈ s.at p → p = .inHand 0) ∧ s.at (.running 0) = [1] := by
  obtain ⟨s, hs, hfree, -, hidle, hcur, -, -, -, hcode⟩ := reach_wakeone
  obtain ⟨-, -, hunique, hrunning, -⟩ := threads_in_one_place hs hfree
  refine ⟨s, hcode, fun p hp => hunique p (.inHand 0) 0 hp ?_, ?_⟩
  · simp [State.at, hcode, Code.inHand]
  · rw [hrunning 0, hidle, hcur]
    rfl

/-- The thread that `wchan_wakeone` has taken from the channel is on no list. -/
theorem woken_thread_on_no_list : ∃ s : State 1 Unit,
    Reach Step anyStep (boot 1 Unit Nat.one_pos) s ∧ (∀ i, s.holder (.runqueue i) = none) ∧
    ∃ t, s.alive t = true ∧ (∀ i, s.isidle i = false → s.curthread i ≠ t) ∧
      (∀ i, t ∉ s.runqueue i) ∧ (∀ w, t ∉ s.wcThreads w) ∧ (∀ i, t ∉ s.zombies i) ∧
      ∀ i, t ∉ (s.code i).privateList := by
  obtain ⟨s, hs, hfree, halive, hidle, hcur, hqueue, hzombies, hwchan, hcode⟩ := reach_wakeone
  have hcpu : ∀ i : Fin 1, i = 0 := fun i => Subsingleton.elim i 0
  refine ⟨s, hs, hfree, 0, halive, fun i _ => ?_, fun i => ?_, fun w => ?_, fun i => ?_, fun i => ?_⟩
  · rw [hcpu i, hcur]
    decide
  · rw [hcpu i, hqueue]
    exact List.not_mem_nil
  · rw [hwchan]
    exact List.not_mem_nil
  · rw [hcpu i, hzombies]
    exact List.not_mem_nil
  · rw [hcpu i, hcode]
    exact List.not_mem_nil

end Os161.Thread

import Os161.Thread.Whereabouts

set_option autoImplicit false

/-!
# Threads that go to other places

`thread_fork`, `exorcise`, wakeups and migration keep `Inv`.
-/

namespace Os161.Thread

open Os161.Lib.Places

variable {n : Nat} {ω : Type} {s : State n ω} {c : Fin n} {t : Tid}

/-! ## `thread_fork` -/

/-- `thread_create`. -/
theorem Inv.create (h : Inv s) (hc : s.code c = .out) (hidle : s.isidle c = false)
    (hnone : s.newthread (s.curthread c) = none) (ht : s.alive t = false) :
    Inv { s with
      alive := Function.update s.alive t true
      state := Function.update s.state t .ready
      cpu := Function.update s.cpu t (s.cpu (s.curthread c))
      newthread := Function.update (Function.update s.newthread t none) (s.curthread c) (some t) } := by
  have hcur := (h.current c).1
  have hne : t ≠ s.curthread c := by
    rintro rfl
    rw [hcur] at ht
    cases ht
  have hnew : s.newthread t = none := by
    by_contra hsome
    have := (h.forking t hsome).1
    rw [ht] at this
    cases this
  have halone := h.current_alone hidle (by rw [hc]; rfl)
  have hnowhere : ∀ q, t ∉ s.at q := fun q hq => by
    have := h.once.mem q hq
    rw [ht] at this
    cases this
  have hq : ∀ i, t ∉ s.runqueue i := fun i => hnowhere (.runqueue i)
  have hz : ∀ i, t ∉ s.zombies i := fun i => hnowhere (.zombies i)
  have hw : ∀ w, t ∉ s.wcThreads w := fun w => hnowhere (.wchan w)
  have hv : ∀ i, t ∉ (s.code i).victims := fun i hi => hnowhere (.privateList i) (victims_subset hi)
  have ho : ∀ i, t ∉ (s.code i).ours := fun i hi =>
    (ours_subset hi).elim (hnowhere (.privateList i)) (hnowhere (.inHand i))
  have hcz : ∀ i, s.curthread c ∉ s.zombies i := fun i => halone.zombies i nofun
  have hcd : ∀ i, s.curthread c ∉ (s.code i).doomed := fun i hi => halone.inHand i nofun (by
    cases hp : s.code i <;> rw [hp] at hi <;> first | exact hi | cases hi)
  have hcn : ∀ u, s.newthread u ≠ some (s.curthread c) := fun u => halone.newthread u nofun
  obtain ⟨once, ready, zombie, sleep, victims, ours, current, newthread, locked, asleep, busy,
    forking, exiting⟩ := h
  constructor
  · refine once.add (p := .newthread (s.curthread c)) (t := t) (by simp [ht]) ?_
      (at_eq (c := c) (fun _ _ => rfl) (fun _ _ => rfl) (fun _ _ => rfl) (fun u hu => ?_)
        (fun _ _ => ⟨rfl, rfl, rfl⟩) (fun _ => rfl) (fun _ => rfl) (fun _ => rfl)) fun u => ?_
    · simp [State.at, hnone]
    · have hu' : u ≠ s.curthread c := by simpa using hu
      by_cases hut : u = t
      · simp [hut, hne, hnew]
      · simp [hut, hu']
    · by_cases hu : u = t <;> simp [hu]
  all_goals grind [Function.update, Code.isAsleep, Code.victims, Code.ours, Code.locked, Code.busy,
    Code.doomed, Code.isExiting]

/-- `thread_fork` fails, and destroys the new thread. -/
theorem Inv.failed (h : Inv s) (ht : s.newthread (s.curthread c) = some t) :
    Inv { s with
      alive := Function.update s.alive t false
      newthread := Function.update s.newthread (s.curthread c) none } := by
  obtain ⟨once, ready, zombie, sleep, victims, ours, current, newthread, locked, asleep, busy,
    forking, exiting⟩ := h
  constructor
  · refine once.drop (p := .newthread (s.curthread c)) (t := t) ?_
      (at_eq (c := c) (fun _ _ => rfl) (fun _ _ => rfl) (fun _ _ => rfl)
        (fun u hu => Function.update_of_ne (by simpa using hu) _ _)
        (fun _ _ => ⟨rfl, rfl, rfl⟩) (fun _ => rfl) (fun _ => rfl) (fun _ => rfl)) fun u => ?_
    · simp [State.at, ht]
    · by_cases hu : u = t <;> simp [hu]
  all_goals grind [Function.update, Code.isAsleep, Code.victims, Code.ours, Code.locked, Code.busy,
    Code.doomed, Code.isExiting]

/-- `thread_make_runnable(newthread, false)` is called. -/
theorem Inv.forked (h : Inv s) (hc : s.code c = .out)
    (ht : s.newthread (s.curthread c) = some t) :
    Inv ({ s with newthread := Function.update s.newthread (s.curthread c) none }.goto c
      (.makeRunnable t [])) := by
  obtain ⟨once, ready, zombie, sleep, victims, ours, current, newthread, locked, asleep, busy,
    forking, exiting⟩ := h
  simp only [State.goto]
  constructor
  · refine once.rearrange (P := [.newthread (s.curthread c), .inHand c]) (by simp) (at_eq (c := c)
      (fun _ _ => rfl) (fun _ _ => rfl) (fun _ _ => rfl)
      (fun u hu => Function.update_of_ne (by simpa using hu) _ _) (fun i hi => by simp [hi])
      (fun _ => ?_) (fun hnot => absurd (by simp) hnot) fun _ => ?_) ?_
    · simp [hc, Code.privateList]
    · simp [State.at, hc, Code.isAsleep]
    · simp [State.at, hc, ht, Code.inHand]
  all_goals grind [Function.update, Code.isAsleep, Code.victims, Code.ours, Code.locked, Code.busy,
    Code.doomed, Code.isExiting]

/-! ## `exorcise` -/

/-- A zombie is taken from the list. -/
theorem Inv.exorcise {zs : List Tid} (h : Inv s) (hc : s.code c = .exorcise)
    (hz : s.zombies c = t :: zs) :
    Inv ({ s with zombies := Function.update s.zombies c zs }.goto c (.destroy t)) := by
  have ht : t ∈ s.zombies c := by simp [hz]
  have hmem : ∀ u, u ∈ zs → u ∈ s.zombies c := fun u hu => by simp [hz, hu]
  obtain ⟨once, ready, zombie, sleep, victims, ours, current, newthread, locked, asleep, busy,
    forking, exiting⟩ := h
  simp only [State.goto]
  constructor
  · refine once.rearrange (P := [.zombies c, .inHand c]) (by simp) (at_eq (c := c)
      (fun _ _ => rfl) (fun i hi => Function.update_of_ne (by simpa using hi) _ _) (fun _ _ => rfl)
      (fun _ _ => rfl) (fun i hi => by simp [hi]) (fun _ => ?_)
      (fun hnot => absurd (by simp) hnot) fun _ => ?_) ?_
    · simp [hc, Code.privateList]
    · simp [State.at, hc, Code.isAsleep]
    · simp [State.at, hc, hz, Code.inHand]
  all_goals grind [Function.update, Code.isAsleep, Code.victims, Code.ours, Code.locked, Code.busy,
    Code.doomed, Code.isExiting]

/-- `thread_destroy`. -/
theorem Inv.destroy (h : Inv s) (hc : s.code c = .destroy t) :
    Inv ({ s with alive := Function.update s.alive t false }.goto c .exorcise) := by
  have hidle : s.isidle c = false := h.busy c (by rw [hc]; rfl)
  have halone := h.alone (q := .inHand c) (t := t) (by simp [State.at, hc, Code.inHand])
  have hcpu := h.ours c t (by simp [hc, Code.ours])
  have hdoomed : t ∈ (s.code c).doomed := by simp [hc, Code.doomed]
  have hcur : ∀ i, s.curthread i ≠ t := by
    rintro i rfl
    rw [(h.current i).2] at hcpu
    subst hcpu
    exact halone.running i (fun e => by cases e) hidle (by rw [hc]; rfl) rfl
  obtain ⟨once, ready, zombie, sleep, victims, ours, current, newthread, locked, asleep, busy,
    forking, exiting⟩ := h
  simp only [State.goto]
  constructor
  · refine once.drop (p := .inHand c) (t := t) ?_
      (at_eq (c := c) (fun _ _ => rfl) (fun _ _ => rfl) (fun _ _ => rfl) (fun _ _ => rfl)
        (fun i hi => by simp [hi]) (fun _ => ?_) (fun hnot => absurd (by simp) hnot) fun _ => ?_)
      fun u => ?_
    · simp [State.at, hc, Code.inHand]
    · simp [hc, Code.privateList]
    · simp [State.at, hc, Code.isAsleep]
    · by_cases hu : u = t <;> simp [hu]
  all_goals grind [Function.update, Code.isAsleep, Code.victims, Code.ours, Code.locked, Code.busy,
    Code.doomed, Code.isExiting]

/-! ## Wakeups -/

/-- The first of the threads `l` is the next `target`. -/
theorem waking_inside (l : List Tid) :
    (waking l : Code n ω).inHand ++ (waking l : Code n ω).privateList = l := by
  cases l <;> rfl

theorem locked_of_isAsleep {p : Code n ω} (hp : p.isAsleep = true) : p.locked c = some c := by
  cases p <;> first | rfl | cases hp

variable [DecidableEq ω]

/-- Threads are taken from a wait channel. -/
theorem Inv.wake {w : ω} {l ts : List Tid} (h : Inv s) (hc : s.code c = .out)
    (hw : s.wcThreads w = l ++ ts) :
    Inv ({ s with wcThreads := Function.update s.wcThreads w ts }.goto c (waking l)) := by
  have hmem : ∀ u, u ∈ ts → u ∈ s.wcThreads w := fun u hu => by simp [hw, hu]
  obtain ⟨once, ready, zombie, sleep, victims, ours, current, newthread, locked, asleep, busy,
    forking, exiting⟩ := h
  simp only [State.goto]
  constructor
  · refine once.rearrange (P := [.wchan w, .inHand c, .privateList c]) (by simp) (at_eq (c := c)
      (fun _ _ => rfl) (fun _ _ => rfl) (fun i hi => Function.update_of_ne (by simpa using hi) _ _)
      (fun _ _ => rfl) (fun i hi => by simp [hi]) (fun hnot => absurd (by simp) hnot)
      (fun hnot => absurd (by simp) hnot) fun _ => ?_) ?_
    · cases l <;> simp [State.at, hc, waking, Code.isAsleep]
    · have hin := waking_inside (n := n) (ω := ω) l
      simp only [List.flatMap_cons, List.flatMap_nil, List.append_nil, State.at,
        Function.update_self, hc, hw, hin]
      simpa [Code.inHand, Code.privateList] using List.perm_append_comm
  all_goals cases l <;> grind [Function.update, waking, Code.isAsleep, Code.victims, Code.ours,
    Code.locked, Code.busy, Code.doomed, Code.isExiting]

/-- `thread_make_runnable`, when it has got the lock. -/
theorem Inv.makeRunnable {ts : List Tid} (h : Inv s) (hc : s.code c = .makeRunnable t ts)
    (hlock : s.holder (.runqueue (s.cpu t)) = none) :
    Inv (((s.lock c (.runqueue (s.cpu t))).enqueue t).goto c (.madeRunnable (s.cpu t) ts)) := by
  have halone := h.alone (q := .inHand c) (t := t) (by simp [State.at, hc, Code.inHand])
  have hz : ∀ i, t ∉ s.zombies i := fun i => halone.zombies i (fun e => by cases e)
  have hw : ∀ w, t ∉ s.wcThreads w := fun w => halone.wchan w (fun e => by cases e)
  have hv : ∀ i, t ∉ (s.code i).victims := fun i => halone.victims (fun e => by cases e)
  -- a thread that goes to sleep has its run queue locked
  have hcur : ∀ i, (s.code i).isAsleep = true → s.curthread i ≠ t := by
    rintro i hi rfl
    rw [(h.current i).2, h.locked i i (locked_of_isAsleep hi)] at hlock
    cases hlock
  obtain ⟨once, ready, zombie, sleep, victims, ours, current, newthread, locked, asleep, busy,
    forking, exiting⟩ := h
  simp only [State.goto, State.enqueue, State.lock]
  constructor
  · refine once.rearrange (P := [.inHand c, .runqueue (s.cpu t)]) (by simp) (at_eq (c := c)
      (fun i hi => Function.update_of_ne (by simpa using hi) _ _) (fun _ _ => rfl) (fun _ _ => rfl)
      (fun _ _ => rfl) (fun i hi => by simp [hi]) (fun _ => ?_) (fun hnot => absurd (by simp) hnot)
      fun _ => ?_) ?_
    · simp [hc, Code.privateList]
    · simp [State.at, hc, Code.isAsleep]
    · simp [State.at, hc, Code.inHand]
  all_goals grind [Function.update, Code.isAsleep, Code.victims, Code.ours, Code.locked, Code.busy,
    Code.doomed, Code.isExiting]

/-- `wchan_wakeall` goes on to the next thread. -/
theorem Inv.madeRunnable {i : Fin n} {ts : List Tid} (h : Inv s)
    (hc : s.code c = .madeRunnable i ts) :
    Inv ((s.unlock (.runqueue i)).goto c (waking ts)) := by
  obtain ⟨once, ready, zombie, sleep, victims, ours, current, newthread, locked, asleep, busy,
    forking, exiting⟩ := h
  simp only [State.goto, State.unlock]
  constructor
  · refine once.rearrange (P := [.inHand c, .privateList c]) (by simp) (at_eq (c := c)
      (fun _ _ => rfl) (fun _ _ => rfl) (fun _ _ => rfl) (fun _ _ => rfl) (fun i hi => by simp [hi])
      (fun hnot => absurd (by simp) hnot) (fun hnot => absurd (by simp) hnot) fun _ => ?_) ?_
    · cases ts <;> simp [State.at, hc, waking, Code.isAsleep]
    · have hin := waking_inside (n := n) (ω := ω) ts
      simp only [List.flatMap_cons, List.flatMap_nil, List.append_nil, State.at,
        Function.update_self, hc, hin]
      simp [Code.inHand, Code.privateList]
  all_goals cases ts <;> grind [Function.update, waking, Code.isAsleep, Code.victims, Code.ours,
    Code.locked, Code.busy, Code.doomed, Code.isExiting]

/-! ## Migration -/

omit [DecidableEq ω] in
/-- The threads that are gathered are those that were at the end of the run queue. -/
theorem gather_append {k : Nat} {queue vs queue' vs' : List Tid}
    (h : gather k queue vs = some (queue', vs')) :
    queue' ++ vs' = queue ++ vs ∧ vs'.length = vs.length + k := by
  induction k generalizing queue vs with
  | zero =>
      cases h
      exact ⟨rfl, rfl⟩
  | succ k ih =>
      rcases List.eq_nil_or_concat queue with rfl | ⟨init, t, rfl⟩
      · cases h
      · have h' : gather k init (t :: vs) = some (queue', vs') := by
          simpa [Thread.gather] using h
        obtain ⟨happ, hlen⟩ := ih h'
        rw [List.length_cons] at hlen
        exact ⟨by simpa using happ, by omega⟩

omit [DecidableEq ω] in
theorem exists_gather (k : Nat) : ∀ queue vs : List Tid, k ≤ queue.length →
    ∃ r, gather k queue vs = some r := by
  induction k with
  | zero => exact fun queue vs _ => ⟨_, rfl⟩
  | succ k ih =>
      intro queue vs hk
      rcases List.eq_nil_or_concat queue with rfl | ⟨init, t, rfl⟩
      · cases hk
      · simpa [Thread.gather] using ih init (t :: vs) (by simpa using hk)

omit [DecidableEq ω] in
/-- The threads that are sent are some of the victims, and not the current thread. -/
theorem sendTo_perm {cur : Tid} {share k k' count : Nat} {vs ts vs' : List Tid}
    (h : sendTo cur share k count vs = some (ts, vs', k')) :
    (ts ++ vs').Perm vs ∧ cur ∉ ts ∧ (k ≤ vs.length → k' ≤ vs'.length) := by
  induction k generalizing count vs ts with
  | zero =>
      cases h
      exact ⟨List.Perm.refl _, List.not_mem_nil, id⟩
  | succ k ih =>
      unfold sendTo at h
      split at h
      · cases vs with
        | nil => cases h
        | cons t vs =>
            dsimp only at h
            split at h
            · obtain ⟨hperm, hcur, hlen⟩ := ih h
              refine ⟨hperm.trans (List.perm_append_singleton t vs), hcur, fun hk => hlen ?_⟩
              rw [List.length_append]
              exact Nat.le_of_succ_le hk
            · rename_i hne
              obtain ⟨⟨ts, vs₁, k₁⟩, hrun, hr⟩ := Option.map_eq_some_iff.1 h
              cases hr
              obtain ⟨hperm, hcur, hlen⟩ := ih hrun
              refine ⟨hperm.cons t, ?_, fun hk => hlen (Nat.le_of_succ_le_succ hk)⟩
              rw [List.mem_cons, not_or]
              exact ⟨fun e => hne e.symm, hcur⟩
      · cases h
        exact ⟨List.Perm.refl _, List.not_mem_nil, id⟩

omit [DecidableEq ω] in
theorem exists_sendTo {cur : Tid} {share : Nat} (k : Nat) : ∀ (count : Nat) (vs : List Tid),
    k ≤ vs.length → ∃ r, sendTo cur share k count vs = some r := by
  induction k with
  | zero => exact fun count vs _ => ⟨_, rfl⟩
  | succ k ih =>
      intro count vs hk
      unfold sendTo
      split
      · cases vs with
        | nil => cases hk
        | cons t vs =>
            dsimp only
            split
            · refine ih count (vs ++ [t]) ?_
              rw [List.length_append]
              exact Nat.le_of_succ_le hk
            · obtain ⟨r, hr⟩ := ih (count + 1) vs (Nat.le_of_succ_le_succ hk)
              exact ⟨_, by rw [hr]; rfl⟩
      · exact ⟨_, rfl⟩

/-- Threads are taken from the end of the run queue. -/
theorem Inv.gather {queue victims' : List Tid} {share k : Nat} (h : Inv s)
    (hc : s.code c = .gather share k) (hlock : s.holder (.runqueue c) = none)
    (hqueue : queue ++ victims' = s.runqueue c) :
    Inv ({ s.lock c (.runqueue c) with
      runqueue := Function.update s.runqueue c queue }.goto c (.gathered share k victims')) := by
  have hin : ∀ t ∈ queue, t ∈ s.runqueue c := fun t ht => by simp [← hqueue, ht]
  have hin' : ∀ t ∈ victims', t ∈ s.runqueue c := fun t ht => by simp [← hqueue, ht]
  obtain ⟨once, ready, zombie, sleep, victims, ours, current, newthread, locked, asleep, busy,
    forking, exiting⟩ := h
  simp only [State.goto, State.lock]
  constructor
  · refine once.rearrange (P := [.runqueue c, .privateList c]) (by simp) (at_eq (c := c)
      (fun i hi => Function.update_of_ne (by simpa using hi) _ _) (fun _ _ => rfl) (fun _ _ => rfl)
      (fun _ _ => rfl) (fun i hi => by simp [hi]) (fun hnot => absurd (by simp) hnot) (fun _ => ?_)
      fun _ => ?_) ?_
    · simp [hc, Code.inHand]
    · simp [State.at, hc, Code.isAsleep]
    · simp [State.at, hc, Code.privateList, hqueue]
  all_goals grind [Function.update, Code.isAsleep, Code.victims, Code.ours, Code.locked, Code.busy,
    Code.doomed, Code.isExiting]

/-- Victims are sent to another cpu. -/
theorem Inv.send {i : Fin n} {rest : List (Fin n)} {share k k' : Nat} {vs ts vs' : List Tid}
    (h : Inv s) (hc : s.code c = .send i rest share k vs) (hlock : s.holder (.runqueue i) = none)
    (hperm : (ts ++ vs').Perm vs) (hcur : s.curthread c ∉ ts) :
    Inv ({ (s.lock c (.runqueue i)).append i ts with
      cpu := fun t => if t ∈ ts then i else s.cpu t }.goto c (.sent i rest share k' vs')) := by
  have hpriv : (s.code c).privateList = vs := by rw [hc]; rfl
  have hmem : ∀ t, t ∈ ts → t ∈ vs := fun t ht => hperm.mem_iff.1 (List.mem_append_left _ ht)
  have hmem' : ∀ t, t ∈ vs' → t ∈ vs := fun t ht => hperm.mem_iff.1 (List.mem_append_right _ ht)
  have hdisj : ∀ t, t ∈ ts → t ∉ vs' := by
    have hnodup := hperm.nodup_iff.2 (hpriv ▸ h.once.nodup (.privateList c))
    exact fun t ht ht' => (List.nodup_append.1 hnodup).2.2 t ht t ht' rfl
  have halone : ∀ t, t ∈ ts → Alone s (.privateList c) t := fun t ht => h.alone (by
    rw [State.at, hpriv]
    exact hmem t ht)
  have hq : ∀ t, t ∈ ts → ∀ j, t ∉ s.runqueue j := fun t ht j =>
    (halone t ht).runqueue j (fun e => by cases e)
  have hz : ∀ t, t ∈ ts → ∀ j, t ∉ s.zombies j := fun t ht j =>
    (halone t ht).zombies j (fun e => by cases e)
  have ho : ∀ t, t ∈ ts → ∀ j, j ≠ c → t ∉ (s.code j).ours := fun t ht j hj =>
    (halone t ht).ours (fun e => hj (Place.privateList.inj e).symm) (fun e => by cases e)
  have hours : ∀ t, t ∈ vs → t ∈ (s.code c).ours := fun t ht => by rwa [hc]
  have hvic : ∀ t, t ∈ vs → t ∈ (s.code c).victims := fun t ht => by rwa [hc]
  have hne : ∀ t, t ∈ ts → ∀ j, s.curthread j ≠ t := by
    rintro t ht j rfl
    have hcpu := h.ours c _ (hours _ (hmem _ ht))
    rw [(h.current j).2] at hcpu
    subst hcpu
    exact hcur ht
  obtain ⟨once, ready, zombie, sleep, victims, ours, current, newthread, locked, asleep, busy,
    forking, exiting⟩ := h
  simp only [State.goto, State.append, State.lock]
  constructor
  · refine once.rearrange (P := [.runqueue i, .privateList c]) (by simp) (at_eq (c := c)
      (fun i hi => Function.update_of_ne (by simpa using hi) _ _) (fun _ _ => rfl) (fun _ _ => rfl)
      (fun _ _ => rfl) (fun i hi => by simp [hi]) (fun hnot => absurd (by simp) hnot) (fun _ => ?_)
      fun _ => ?_) ?_
    · simp [hc, Code.inHand]
    · simp [State.at, hc, Code.isAsleep]
    · simpa [State.at, hc, Code.privateList] using hperm.append_left (s.runqueue i)
  all_goals grind [Function.update, Code.isAsleep, Code.victims, Code.ours, Code.locked, Code.busy,
    Code.doomed, Code.isExiting]

/-- Leftovers are put back. -/
theorem Inv.giveBack {vs : List Tid} (h : Inv s) (hc : s.code c = .giveBack vs)
    (hlock : s.holder (.runqueue c) = none) :
    Inv (((s.lock c (.runqueue c)).append c vs).goto c .gaveBack) := by
  have hours : ∀ t, t ∈ vs → t ∈ (s.code c).ours := fun t ht => by rwa [hc]
  have hvic : ∀ t, t ∈ vs → t ∈ (s.code c).victims := fun t ht => by rwa [hc]
  obtain ⟨once, ready, zombie, sleep, victims, ours, current, newthread, locked, asleep, busy,
    forking, exiting⟩ := h
  simp only [State.goto, State.append, State.lock]
  constructor
  · refine once.rearrange (P := [.runqueue c, .privateList c]) (by simp) (at_eq (c := c)
      (fun i hi => Function.update_of_ne (by simpa using hi) _ _) (fun _ _ => rfl) (fun _ _ => rfl)
      (fun _ _ => rfl) (fun i hi => by simp [hi]) (fun hnot => absurd (by simp) hnot) (fun _ => ?_)
      fun _ => ?_) ?_
    · simp [hc, Code.inHand]
    · simp [State.at, hc, Code.isAsleep]
    · simp [State.at, hc, Code.privateList]
  all_goals grind [Function.update, Code.isAsleep, Code.victims, Code.ours, Code.locked, Code.busy,
    Code.doomed, Code.isExiting]

end Os161.Thread

import Mathlib.Algebra.BigOperators.Group.Finset.Basic
import Mathlib.Algebra.Order.BigOperators.Group.Finset
import Mathlib.Data.Set.Card
import Mathlib.Tactic.Common
import Os161.Lib.Runs

set_option autoImplicit false

/-!
# Mesa monitors

Threads that share data under locks and wait on queues. A `Client` is what the threads do: steps
of their own on the shared data (`runs`), and calls on locks and queues (`calls`), with what is
stored together with a call (`effect`). `Step` is one step of one thread: a waiting thread gives up
its lock and joins the queue in one step, a wakeup takes it off the queue, and it goes on when it
has got the lock back; until then every other thread may take the lock first.

`Sound` holds in every reachable state of every client. For clients with one lock there are two
rules: `Guarded` for an invariant of the shared data that holds when the lock is free, and
`Accounts` for wakeups: while somebody is on a queue, the threads that have been woken from it
cover what there is to take.
-/

namespace Os161.Lib.Monitor

open Os161.Lib.Runs

/-- Calls on locks and queues. -/
inductive Req (L C : Type) where
  | acquire (ℓ : L)
  | release (ℓ : L)
  | wait (c : C) (ℓ : L)
  | signal (c : C) (ℓ : L)
  | broadcast (c : C) (ℓ : L)
  deriving DecidableEq, Repr

section Queues

variable {α ι : Type} [DecidableEq ι]

theorem mem_update_tail {q : ι → List α} {c c' : ι} {u : α}
    (h : u ∈ Function.update q c (q c).tail c') : u ∈ q c' := by
  by_cases hc : c' = c
  · subst hc
    rw [Function.update_self] at h
    exact List.mem_of_mem_tail h
  · rwa [Function.update_of_ne hc] at h

theorem mem_update_nil {q : ι → List α} {c c' : ι} {u : α}
    (h : u ∈ Function.update q c [] c') : u ∈ q c' := by
  by_cases hc : c' = c
  · subst hc
    rw [Function.update_self] at h
    cases h
  · rwa [Function.update_of_ne hc] at h

end Queues

section Clients

variable {τ L C σ κ : Type} [DecidableEq L]

/-- The locks `o` that the caller has allow the call `r`, and `o'` are the locks it has when the
call has returned. -/
def Req.Moves (o : L → Bool) (r : Req L C) (o' : L → Bool) : Prop :=
  match r with
  | .acquire ℓ => o ℓ = false ∧ o' = Function.update o ℓ true
  | .release ℓ => o ℓ = true ∧ o' = Function.update o ℓ false
  | .wait _ ℓ => o ℓ = true ∧ o' = o
  | .signal _ ℓ => o ℓ = true ∧ o' = o
  | .broadcast _ ℓ => o ℓ = true ∧ o' = o

/-- What the threads `τ` do at the program points `κ` to the shared data `σ`. -/
structure Client (τ L C σ κ : Type) [DecidableEq L] where
  start : κ
  runs : τ → κ → σ → κ → σ → Prop
  calls : κ → Req L C → κ → Prop
  /-- What the shared data become when a call takes effect. -/
  effect : τ → κ → Req L C → σ → σ
  /-- The locks of a thread. -/
  owns : κ → L → Bool
  owns_start : ∀ ℓ, owns start ℓ = false
  owns_runs : ∀ t k s k' s', runs t k s k' s' → owns k' = owns k
  owns_calls : ∀ k r k', calls k r k' → r.Moves (owns k) (owns k')

/-- The client that makes every call its locks allow; a program point is the set of its locks. -/
def anyCalls (τ L C : Type) [DecidableEq L] : Client τ L C Unit (L → Bool) where
  start _ := false
  runs _ _ _ _ _ := False
  calls o r o' := r.Moves o o'
  effect _ _ _ x := x
  owns o := o
  owns_start _ := rfl
  owns_runs _ _ _ _ _ h := h.elim
  owns_calls _ _ _ h := h

/-- A thread at a program point, or in a queue or woken from it. -/
inductive Pc (L C κ : Type) where
  | active (k : κ)
  | waiting (c : C) (ℓ : L) (k : κ)
  deriving DecidableEq, Repr

/-- The locks of a thread: one that waits has given up the lock it waits with. -/
def Pc.owns (P : Client τ L C σ κ) : Pc L C κ → L → Bool
  | .active k => P.owns k
  | .waiting _ ℓ k => Function.update (P.owns k) ℓ false

/-- Locks, queues, threads and shared data. -/
@[ext]
structure State (τ L C σ κ : Type) where
  holder : L → Option τ
  queue : C → List τ
  pcs : τ → Pc L C κ
  shared : σ

/-- Nobody has a lock, nobody waits. -/
def Client.init (P : Client τ L C σ κ) (x : σ) : State τ L C σ κ :=
  { holder := fun _ => none, queue := fun _ => [], pcs := fun _ => .active P.start, shared := x }

/-- `t` has been woken from the queue `c`, and has not got its lock back yet. -/
def State.Woken (s : State τ L C σ κ) (c : C) (t : τ) : Prop :=
  t ∉ s.queue c ∧ ∃ ℓ k, s.pcs t = .waiting c ℓ k

/-! ## What every client keeps -/

/-- Each lock has at most one owner, and only waiting threads are on queues, each once. -/
structure Sound (P : Client τ L C σ κ) (s : State τ L C σ κ) : Prop where
  owner : ∀ ℓ t, s.holder ℓ = some t ↔ (s.pcs t).owns P ℓ = true
  asleep : ∀ c t, t ∈ s.queue c → ∃ ℓ k, s.pcs t = .waiting c ℓ k
  nodup : ∀ c, (s.queue c).Nodup
  called : ∀ t c ℓ k', s.pcs t = .waiting c ℓ k' → ∃ k, P.calls k (.wait c ℓ) k'

variable {P : Client τ L C σ κ} {s s' : State τ L C σ κ} {t : τ}

theorem sound_init (x : σ) : Sound P (P.init x) where
  owner ℓ t := by simp [Client.init, Pc.owns, P.owns_start]
  asleep c t h := by simp [Client.init] at h
  nodup c := List.nodup_nil
  called t c ℓ k' h := by cases h

/-- A thread that is not waiting is on no queue. -/
theorem Sound.not_mem_queue (h : Sound P s) {k : κ} (ht : s.pcs t = .active k) (c : C) :
    t ∉ s.queue c := by
  intro hc
  obtain ⟨ℓ, k', hk'⟩ := h.asleep c t hc
  rw [ht] at hk'
  cases hk'

/-- Two owners of a lock are the same thread. -/
theorem Sound.owner_unique (h : Sound P s) {ℓ : L} {u : τ} (ht : (s.pcs t).owns P ℓ = true)
    (hu : (s.pcs u).owns P ℓ = true) : t = u := by
  have e := ((h.owner ℓ t).2 ht).symm.trans ((h.owner ℓ u).2 hu)
  cases e
  rfl

/-- A lock without a holder has no owner. -/
theorem Sound.not_owns (h : Sound P s) {ℓ : L} (hfree : s.holder ℓ = none) (u : τ) :
    (s.pcs u).owns P ℓ = false := by
  rw [← Bool.not_eq_true, ← h.owner ℓ u, hfree]
  simp

section Updates

variable [DecidableEq τ]

/-- Owners after a step of `t`: the other threads have what they had. -/
theorem Sound.owner_update (h : Sound P s) {holder' : L → Option τ} {pc : Pc L C κ}
    (hself : ∀ ℓ, holder' ℓ = some t ↔ pc.owns P ℓ = true)
    (hother : ∀ ℓ u, u ≠ t → (holder' ℓ = some u ↔ s.holder ℓ = some u)) (ℓ : L) (u : τ) :
    holder' ℓ = some u ↔ (Function.update s.pcs t pc u).owns P ℓ = true := by
  by_cases hu : u = t
  · subst hu
    rw [Function.update_self]
    exact hself ℓ
  · rw [Function.update_of_ne hu, hother ℓ u hu]
    exact h.owner ℓ u

/-- Queues after `t`, which is not on one, has gone from one program point to another. -/
theorem Sound.asleep_update (h : Sound P s) {queue' : C → List τ} {k : κ} (pc : Pc L C κ)
    (ht : s.pcs t = .active k) (hq : ∀ c u, u ∈ queue' c → u ∈ s.queue c) (c : C) (u : τ)
    (hu : u ∈ queue' c) : ∃ ℓ k, Function.update s.pcs t pc u = .waiting c ℓ k := by
  have hut : u ≠ t := by
    rintro rfl
    exact h.not_mem_queue ht c (hq c u hu)
  rw [Function.update_of_ne hut]
  exact h.asleep c u (hq c u hu)

theorem Sound.called_update (h : Sound P s) {pc : Pc L C κ}
    (ht : ∀ c ℓ k', pc = .waiting c ℓ k' → ∃ k, P.calls k (.wait c ℓ) k') (u : τ) (c : C) (ℓ : L)
    (k' : κ) (hu : Function.update s.pcs t pc u = .waiting c ℓ k') :
    ∃ k, P.calls k (.wait c ℓ) k' := by
  by_cases hut : u = t
  · subst hut
    rw [Function.update_self] at hu
    exact ht c ℓ k' hu
  · rw [Function.update_of_ne hut] at hu
    exact h.called u c ℓ k' hu

/-- A step of `t` that leaves the locks alone. -/
theorem Sound.keep (h : Sound P s) {k k' : κ} {queue' : C → List τ} {x : σ}
    (ht : s.pcs t = .active k) (howns : P.owns k' = P.owns k)
    (hq : ∀ c u, u ∈ queue' c → u ∈ s.queue c) (hnodup : ∀ c, (queue' c).Nodup) :
    Sound P { s with queue := queue', pcs := Function.update s.pcs t (.active k'), shared := x } where
  owner := h.owner_update
    (fun ℓ => by
      rw [h.owner ℓ t, ht]
      simp only [Pc.owns, howns])
    fun _ _ _ => Iff.rfl
  asleep := h.asleep_update _ ht hq
  nodup := hnodup
  called := h.called_update fun _ _ _ e => nomatch e

/-- A lock is taken by `t`. -/
theorem Sound.take (h : Sound P s) {pc : Pc L C κ} {ℓ : L} {x : σ} (hfree : s.holder ℓ = none)
    (hq : ∀ c, t ∉ s.queue c) (hpc : ∀ c ℓ k, pc ≠ .waiting c ℓ k)
    (howns : pc.owns P = Function.update ((s.pcs t).owns P) ℓ true) :
    Sound P { s with holder := Function.update s.holder ℓ (some t)
                     pcs := Function.update s.pcs t pc, shared := x } where
  owner := by
    apply h.owner_update
    · intro ℓ'
      by_cases hℓ : ℓ' = ℓ
      · subst hℓ
        simp [howns]
      · simp [howns, hℓ, h.owner ℓ' t]
    · intro ℓ' u hu
      by_cases hℓ : ℓ' = ℓ
      · subst hℓ
        simp [hfree, Ne.symm hu]
      · simp [hℓ]
  asleep := by
    intro c u hu
    have hut : u ≠ t := by
      rintro rfl
      exact hq c hu
    obtain ⟨ℓ', k, hk⟩ := h.asleep c u hu
    exact ⟨ℓ', k, (Function.update_of_ne hut _ _).trans hk⟩
  nodup := h.nodup
  called := h.called_update fun c ℓ' k' e => absurd e (hpc c ℓ' k')

/-- A lock is given up by `t`. -/
theorem Sound.owner_give (h : Sound P s) {pc : Pc L C κ} {ℓ : L}
    (ht : (s.pcs t).owns P ℓ = true)
    (howns : pc.owns P = Function.update ((s.pcs t).owns P) ℓ false) (ℓ' : L) (u : τ) :
    Function.update s.holder ℓ none ℓ' = some u ↔
      (Function.update s.pcs t pc u).owns P ℓ' = true := by
  have hheld := (h.owner ℓ t).2 ht
  apply h.owner_update
  · intro ℓ'
    by_cases hℓ : ℓ' = ℓ
    · subst hℓ
      simp [howns]
    · simp [howns, hℓ, h.owner ℓ' t]
  · intro ℓ' u hu
    by_cases hℓ : ℓ' = ℓ
    · subst hℓ
      simp [hheld, Ne.symm hu]
    · simp [hℓ]

end Updates

/-! ## Steps -/

variable [DecidableEq τ] [DecidableEq C]

/-- One step of the thread `t`. -/
inductive Step (P : Client τ L C σ κ) (s : State τ L C σ κ) (t : τ) : State τ L C σ κ → Prop where
  | run {k k' : κ} {x : σ} : s.pcs t = .active k → P.runs t k s.shared k' x →
      Step P s t { s with pcs := Function.update s.pcs t (.active k'), shared := x }
  | acquire {k k' : κ} {ℓ : L} : s.pcs t = .active k → P.calls k (.acquire ℓ) k' →
      s.holder ℓ = none →
      Step P s t { s with holder := Function.update s.holder ℓ (some t)
                          pcs := Function.update s.pcs t (.active k')
                          shared := P.effect t k (.acquire ℓ) s.shared }
  | release {k k' : κ} {ℓ : L} : s.pcs t = .active k → P.calls k (.release ℓ) k' →
      Step P s t { s with holder := Function.update s.holder ℓ none
                          pcs := Function.update s.pcs t (.active k')
                          shared := P.effect t k (.release ℓ) s.shared }
  | wait {k k' : κ} {c : C} {ℓ : L} : s.pcs t = .active k → P.calls k (.wait c ℓ) k' →
      Step P s t { holder := Function.update s.holder ℓ none
                   queue := Function.update s.queue c (s.queue c ++ [t])
                   pcs := Function.update s.pcs t (.waiting c ℓ k')
                   shared := P.effect t k (.wait c ℓ) s.shared }
  | resume {k : κ} {c : C} {ℓ : L} : s.pcs t = .waiting c ℓ k → t ∉ s.queue c →
      s.holder ℓ = none →
      Step P s t { s with holder := Function.update s.holder ℓ (some t)
                          pcs := Function.update s.pcs t (.active k) }
  | signal {k k' : κ} {c : C} {ℓ : L} : s.pcs t = .active k → P.calls k (.signal c ℓ) k' →
      Step P s t { s with queue := Function.update s.queue c (s.queue c).tail
                          pcs := Function.update s.pcs t (.active k')
                          shared := P.effect t k (.signal c ℓ) s.shared }
  | broadcast {k k' : κ} {c : C} {ℓ : L} : s.pcs t = .active k → P.calls k (.broadcast c ℓ) k' →
      Step P s t { s with queue := Function.update s.queue c []
                          pcs := Function.update s.pcs t (.active k')
                          shared := P.effect t k (.broadcast c ℓ) s.shared }

/-- The state after `t` has made the call `r` at `k` and is at `k'`. -/
def State.call (P : Client τ L C σ κ) (s : State τ L C σ κ) (t : τ) (k k' : κ) :
    Req L C → State τ L C σ κ
  | .acquire ℓ => { s with holder := Function.update s.holder ℓ (some t)
                           pcs := Function.update s.pcs t (.active k')
                           shared := P.effect t k (.acquire ℓ) s.shared }
  | .release ℓ => { s with holder := Function.update s.holder ℓ none
                           pcs := Function.update s.pcs t (.active k')
                           shared := P.effect t k (.release ℓ) s.shared }
  | .wait c ℓ => { holder := Function.update s.holder ℓ none
                   queue := Function.update s.queue c (s.queue c ++ [t])
                   pcs := Function.update s.pcs t (.waiting c ℓ k')
                   shared := P.effect t k (.wait c ℓ) s.shared }
  | .signal c ℓ => { s with queue := Function.update s.queue c (s.queue c).tail
                            pcs := Function.update s.pcs t (.active k')
                            shared := P.effect t k (.signal c ℓ) s.shared }
  | .broadcast c ℓ => { s with queue := Function.update s.queue c []
                               pcs := Function.update s.pcs t (.active k')
                               shared := P.effect t k (.broadcast c ℓ) s.shared }

/-- A thread at a point without steps of its own makes a call. -/
theorem Step.of_calls (hs : Step P s t s') {k : κ} (ht : s.pcs t = .active k)
    (hrun : ∀ k' x, ¬ P.runs t k s.shared k' x) :
    ∃ r k', P.calls k r k' ∧ s' = s.call P t k k' r := by
  have hpoint : ∀ {k₁ : κ}, s.pcs t = .active k₁ → k₁ = k := fun h => by
    rw [ht] at h
    exact (Pc.active.inj h).symm
  cases hs with
  | run hk hr =>
      obtain rfl := hpoint hk
      exact absurd hr (hrun _ _)
  | acquire hk hc hfree =>
      obtain rfl := hpoint hk
      exact ⟨_, _, hc, rfl⟩
  | release hk hc =>
      obtain rfl := hpoint hk
      exact ⟨_, _, hc, rfl⟩
  | wait hk hc =>
      obtain rfl := hpoint hk
      exact ⟨_, _, hc, rfl⟩
  | resume hk hq hfree =>
      rw [ht] at hk
      cases hk
  | signal hk hc =>
      obtain rfl := hpoint hk
      exact ⟨_, _, hc, rfl⟩
  | broadcast hk hc =>
      obtain rfl := hpoint hk
      exact ⟨_, _, hc, rfl⟩

/-- Step lemma. -/
theorem Step.sound (hs : Step P s t s') (h : Sound P s) : Sound P s' := by
  cases hs with
  | run hk hr => exact h.keep hk (P.owns_runs _ _ _ _ _ hr) (fun _ _ hu => hu) h.nodup
  | @acquire k k' ℓ hk hc hfree =>
      obtain ⟨-, ho⟩ := P.owns_calls _ _ _ hc
      apply h.take hfree (h.not_mem_queue hk)
      · intro c ℓ' k₁ e
        cases e
      · rw [hk]
        exact ho
  | @release k k' ℓ hk hc =>
      obtain ⟨hown, ho⟩ := P.owns_calls _ _ _ hc
      refine ⟨h.owner_give ?_ ?_, h.asleep_update _ hk fun _ _ hu => hu, h.nodup,
        h.called_update fun _ _ _ e => nomatch e⟩
      · rw [hk]
        exact hown
      · rw [hk]
        exact ho
  | @wait k k' c ℓ hk hc =>
      obtain ⟨hown, ho⟩ := P.owns_calls _ _ _ hc
      refine ⟨h.owner_give ?_ ?_, fun c' u hu => ?_, fun c' => ?_, h.called_update ?_⟩
      · rw [hk]
        exact hown
      · rw [hk]
        simp only [Pc.owns, ho]
      · by_cases hut : u = t
        · subst hut
          -- `u` joins the queue `c` only
          have hcc : c' = c := by
            by_contra hne
            simp only [Function.update_of_ne hne] at hu
            exact h.not_mem_queue hk c' hu
          subst hcc
          exact ⟨ℓ, k', Function.update_self ..⟩
        · simp only [Function.update_of_ne hut]
          apply h.asleep c' u
          by_cases hcc : c' = c
          · subst hcc
            simpa [hut] using hu
          · simpa [hcc] using hu
      · by_cases hcc : c' = c
        · subst hcc
          simp only [Function.update_self]
          exact (h.nodup c').append (List.nodup_singleton t)
            (by simpa using h.not_mem_queue hk c')
        · simp only [Function.update_of_ne hcc]
          exact h.nodup c'
      · intro c' ℓ' k₁ e
        cases e
        exact ⟨k, hc⟩
  | @resume k c ℓ hk hq hfree =>
      refine h.take hfree (fun c' hc' => ?_) ?_ ?_
      · obtain ⟨ℓ', k', hk'⟩ := h.asleep c' t hc'
        rw [hk] at hk'
        cases hk'
        exact hq hc'
      · intro c' ℓ' k₁ e
        cases e
      · rw [hk]
        obtain ⟨k₀, hc⟩ := h.called t c ℓ k hk
        obtain ⟨hown, ho⟩ := P.owns_calls _ _ _ hc
        have hown' : P.owns k ℓ = true := by rw [ho, hown]
        simp [Pc.owns, ← hown']
  | @signal k k' c ℓ hk hc =>
      obtain ⟨-, ho⟩ := P.owns_calls _ _ _ hc
      refine h.keep hk ho (fun _ _ hu => mem_update_tail hu) fun c' => ?_
      by_cases hcc : c' = c
      · subst hcc
        rw [Function.update_self]
        exact (h.nodup c').tail
      · rw [Function.update_of_ne hcc]
        exact h.nodup c'
  | @broadcast k k' c ℓ hk hc =>
      obtain ⟨-, ho⟩ := P.owns_calls _ _ _ hc
      refine h.keep hk ho (fun _ _ hu => mem_update_nil hu) fun c' => ?_
      by_cases hcc : c' = c
      · subst hcc
        rw [Function.update_self]
        exact List.nodup_nil
      · rw [Function.update_of_ne hcc]
        exact h.nodup c'

/-- Run lemma. -/
theorem sound_of_reach {ok : State τ L C σ κ → τ → Prop} {x : σ}
    (h : Reach (Step P) ok (P.init x) s) : Sound P s :=
  h.invariant (fun _ _ _ hI _ hs => hs.sound hI) (sound_init x)

end Clients

section OneLock

variable {τ C σ κ : Type} [DecidableEq τ] [DecidableEq C]
  {P : Client τ Unit C σ κ} {s s' : State τ Unit C σ κ} {t : τ}

omit [DecidableEq τ] [DecidableEq C] in
/-- With one lock, a thread that has it is not waiting. -/
theorem Sound.active_of_holder (h : Sound P s) (hheld : s.holder () = some t) :
    ∃ k, s.pcs t = .active k ∧ P.owns k () = true := by
  have hown := (h.owner () t).1 hheld
  cases hk : s.pcs t with
  | active k => exact ⟨k, rfl, by rwa [hk] at hown⟩
  | waiting c ℓ k =>
      rw [hk] at hown
      simp [Pc.owns] at hown

/-! ## Invariants of the shared data -/

/-- `F` holds of the shared data when the lock is free, and `D k` when it is held by a thread that
is at `k`. Threads without the lock leave the data alone. -/
structure Guarded (P : Client τ Unit C σ κ) (F : σ → Prop) (D : κ → σ → Prop) : Prop where
  inside : ∀ t k k' x x', P.owns k () = true → D k x → P.runs t k x k' x' → D k' x'
  outside : ∀ t k k' x x', P.owns k () = false → P.runs t k x k' x' → x' = x
  acquire : ∀ t k k' x, P.calls k (.acquire ()) k' → F x → D k' (P.effect t k (.acquire ()) x)
  release : ∀ t k k' x, P.calls k (.release ()) k' → D k x → F (P.effect t k (.release ()) x)
  wait : ∀ t c k k' x, P.calls k (.wait c ()) k' → D k x → F (P.effect t k (.wait c ()) x)
  resume : ∀ c k k' x, P.calls k (.wait c ()) k' → F x → D k' x
  signal : ∀ t c k k' x, P.calls k (.signal c ()) k' → D k x →
    D k' (P.effect t k (.signal c ()) x)
  broadcast : ∀ t c k k' x, P.calls k (.broadcast c ()) k' → D k x →
    D k' (P.effect t k (.broadcast c ()) x)

/-- The shared data are as `F` and `D` say. -/
structure Consistent (P : Client τ Unit C σ κ) (F : σ → Prop) (D : κ → σ → Prop)
    (s : State τ Unit C σ κ) : Prop where
  free : s.holder () = none → F s.shared
  held : ∀ t k, s.pcs t = .active k → P.owns k () = true → D k s.shared

variable {F : σ → Prop} {D : κ → σ → Prop}

omit [DecidableEq τ] [DecidableEq C] in
/-- What holds whether or not somebody has the lock. -/
theorem Consistent.always (hc : Consistent P F D s) (h : Sound P s) {G : σ → Prop}
    (hF : ∀ x, F x → G x) (hD : ∀ k x, D k x → G x) : G s.shared := by
  cases hheld : s.holder () with
  | none => exact hF _ (hc.free hheld)
  | some t =>
      obtain ⟨k, hk, ho⟩ := h.active_of_holder hheld
      exact hD k _ (hc.held t k hk ho)

omit [DecidableEq τ] [DecidableEq C] in
theorem Consistent.of_held (h : Sound P s) {k : κ} (ht : s.pcs t = .active k)
    (ho : P.owns k () = true) (hD : D k s.shared) : Consistent P F D s where
  free hfree := by
    have := h.not_owns hfree t
    rw [ht] at this
    exact absurd (ho.symm.trans this) (by simp)
  held u k₁ hu ho₁ := by
    have e : t = u := by
      apply h.owner_unique
      · rw [ht]
        exact ho
      · rw [hu]
        exact ho₁
    subst e
    rw [ht] at hu
    cases hu
    exact hD

omit [DecidableEq τ] [DecidableEq C] in
theorem Consistent.of_free (h : Sound P s) (hfree : s.holder () = none) (hF : F s.shared) :
    Consistent P F D s where
  free _ := hF
  held u k hu ho := by
    have := h.not_owns hfree u
    rw [hu] at this
    exact absurd (ho.symm.trans this) (by simp)

/-- Step lemma. -/
theorem Guarded.step (hg : Guarded P F D) (hs : Step P s t s') (h : Sound P s)
    (hc : Consistent P F D s) : Consistent P F D s' := by
  have hsound := hs.sound h
  cases hs with
  | @run k k' x hk hr =>
      have howns := P.owns_runs _ _ _ _ _ hr
      by_cases ho : P.owns k () = true
      · apply Consistent.of_held hsound (Function.update_self ..)
        · rw [howns, ho]
        · exact hg.inside t k k' _ x ho (hc.held t k hk ho) hr
      · -- the data are as they were, and nobody has got or lost the lock
        have ho' : P.owns k () = false := by simpa using ho
        obtain rfl := hg.outside t k k' _ x ho' hr
        refine ⟨hc.free, fun u k₁ hu ho₁ => ?_⟩
        by_cases hut : u = t
        · subst hut
          simp only [Function.update_self, Pc.active.injEq] at hu
          subst hu
          rw [howns, ho'] at ho₁
          cases ho₁
        · simp only [Function.update_of_ne hut] at hu
          exact hc.held u k₁ hu ho₁
  | @acquire k k' ℓ hk hcall hfree =>
      apply Consistent.of_held hsound (Function.update_self ..)
      · rw [(P.owns_calls _ _ _ hcall).2]
        exact Function.update_self ..
      · exact hg.acquire t k k' _ hcall (hc.free hfree)
  | @release k k' ℓ hk hcall =>
      apply Consistent.of_free hsound (Function.update_self ℓ none s.holder)
      exact hg.release t k k' _ hcall (hc.held t k hk (P.owns_calls _ _ _ hcall).1)
  | @wait k k' c ℓ hk hcall =>
      apply Consistent.of_free hsound (Function.update_self ℓ none s.holder)
      exact hg.wait t c k k' _ hcall (hc.held t k hk (P.owns_calls _ _ _ hcall).1)
  | @resume k c ℓ hk hq hfree =>
      obtain ⟨k₀, hcall⟩ := h.called t c ℓ k hk
      obtain ⟨hown, ho⟩ := P.owns_calls _ _ _ hcall
      apply Consistent.of_held hsound (Function.update_self ..)
      · rw [ho]
        exact hown
      · exact hg.resume c k₀ k _ hcall (hc.free hfree)
  | @signal k k' c ℓ hk hcall =>
      obtain ⟨hown, ho⟩ := P.owns_calls _ _ _ hcall
      apply Consistent.of_held hsound (Function.update_self ..)
      · rw [ho]
        exact hown
      · exact hg.signal t c k k' _ hcall (hc.held t k hk hown)
  | @broadcast k k' c ℓ hk hcall =>
      obtain ⟨hown, ho⟩ := P.owns_calls _ _ _ hcall
      apply Consistent.of_held hsound (Function.update_self ..)
      · rw [ho]
        exact hown
      · exact hg.broadcast t c k k' _ hcall (hc.held t k hk hown)

/-- Run lemma. -/
theorem Guarded.consistent (hg : Guarded P F D) {ok : State τ Unit C σ κ → τ → Prop} {x : σ}
    (hx : F x) (h : Reach (Step P) ok (P.init x) s) : Consistent P F D s := by
  have hboth : Sound P s ∧ Consistent P F D s := by
    refine h.invariant (I := fun s => Sound P s ∧ Consistent P F D s) ?_ ?_
    · intro s₁ u s₂ hI _ hs
      exact ⟨hs.sound hI.1, hg.step hs hI.1 hI.2⟩
    · exact ⟨sound_init x, Consistent.of_free (sound_init x) rfl hx⟩
  exact hboth.2

/-! ## Accounting for wakeups -/

/-- What a thread will take when it is woken. -/
def Pc.demand (d : κ → Nat) : Pc Unit C κ → Nat
  | .active _ => 0
  | .waiting _ _ k => d k

/-- When somebody is on the queue `c`, threads woken from it will take `n` together. -/
def Covered (d : κ → Nat) (c : C) (s : State τ Unit C σ κ) (n : Nat) : Prop :=
  s.queue c ≠ [] → ∃ W : Finset τ, (∀ u ∈ W, s.Woken c u) ∧ n ≤ ∑ u ∈ W, (s.pcs u).demand d

/-- The accounts of the queue `c`: `supply` is there to take when the lock is free, and a thread
at `k` with the lock leaves the amount `need k` to the woken threads. A thread joins the queue only
when there is nothing to take, a thread woken from it takes its demand from the amount that the
others have to cover, and a signal raises the amount by at most one. -/
structure Accounts (P : Client τ Unit C σ κ) (ok : State τ Unit C σ κ → τ → Prop) (F : σ → Prop)
    (D : κ → σ → Prop) (c : C) (d : κ → Nat) (supply : σ → Nat) (need : κ → σ → Nat) : Prop where
  inside : ∀ s t k k' x, ok s t → s.pcs t = .active k → P.owns k () = true → D k s.shared →
    P.runs t k s.shared k' x → Covered d c s (need k s.shared) → Covered d c s (need k' x)
  acquire : ∀ t k k' x, P.calls k (.acquire ()) k' → F x →
    need k' (P.effect t k (.acquire ()) x) ≤ supply x
  release : ∀ t k k' x, P.calls k (.release ()) k' → D k x →
    supply (P.effect t k (.release ()) x) ≤ need k x
  waitHere : ∀ t k k' x, P.calls k (.wait c ()) k' → D k x →
    supply (P.effect t k (.wait c ()) x) = 0 ∧ 1 ≤ d k'
  waitElse : ∀ t c' k k' x, P.calls k (.wait c' ()) k' → D k x → c' ≠ c →
    supply (P.effect t k (.wait c' ()) x) ≤ need k x
  resumeHere : ∀ k k' x, P.calls k (.wait c ()) k' → F x → need k' x ≤ supply x - d k'
  resumeElse : ∀ c' k k' x, P.calls k (.wait c' ()) k' → F x → c' ≠ c → need k' x ≤ supply x
  signalHere : ∀ t k k' x, P.calls k (.signal c ()) k' → D k x →
    need k' (P.effect t k (.signal c ()) x) ≤ need k x + 1
  signalElse : ∀ t c' k k' x, P.calls k (.signal c' ()) k' → D k x → c' ≠ c →
    need k' (P.effect t k (.signal c' ()) x) ≤ need k x
  broadcastElse : ∀ t c' k k' x, P.calls k (.broadcast c' ()) k' → D k x → c' ≠ c →
    need k' (P.effect t k (.broadcast c' ()) x) ≤ need k x

/-- The accounts are in order. -/
structure Balanced (P : Client τ Unit C σ κ) (c : C) (d : κ → Nat) (supply : σ → Nat)
    (need : κ → σ → Nat) (s : State τ Unit C σ κ) : Prop where
  free : s.holder () = none → Covered d c s (supply s.shared)
  held : ∀ t k, s.pcs t = .active k → P.owns k () = true → Covered d c s (need k s.shared)
  eager : ∀ t k, s.pcs t = .waiting c () k → 1 ≤ d k

variable {ok : State τ Unit C σ κ → τ → Prop} {c : C} {d : κ → Nat} {supply : σ → Nat}
  {need : κ → σ → Nat}

omit [DecidableEq τ] [DecidableEq C] in
/-- A smaller amount, in a state where the woken threads are still woken. -/
theorem Covered.mono {n n' : Nat} (h : Covered d c s n) (hn : n' ≤ n)
    (hq : s'.queue c ≠ [] → s.queue c ≠ [])
    (hw : ∀ u, s.Woken c u → s'.Woken c u ∧ s'.pcs u = s.pcs u) : Covered d c s' n' := by
  intro hne
  obtain ⟨W, hW, hsum⟩ := h (hq hne)
  refine ⟨W, fun u hu => (hw u (hW u hu)).1, hn.trans (hsum.trans_eq ?_)⟩
  apply Finset.sum_congr rfl
  intro u hu
  rw [(hw u (hW u hu)).2]

omit [DecidableEq τ] [DecidableEq C] in
/-- A thread that is not waiting for `c` moves on; the queue is as it was. -/
theorem Covered.move {n n' : Nat} (h : Covered d c s n) (hn : n' ≤ n) {k : κ}
    (ht : s.pcs t = .active k) (hq : s'.queue c = s.queue c)
    (hpcs : ∀ u, u ≠ t → s'.pcs u = s.pcs u) : Covered d c s' n' := by
  apply h.mono hn
  · rw [hq]
    exact id
  · rintro u ⟨hu, ℓ, k₁, hk₁⟩
    have hut : u ≠ t := by
      rintro rfl
      rw [ht] at hk₁
      cases hk₁
    refine ⟨⟨by rwa [hq], ℓ, k₁, ?_⟩, hpcs u hut⟩
    rw [hpcs u hut, hk₁]

omit [DecidableEq τ] [DecidableEq C] in
theorem Covered.zero : Covered d c s 0 := fun _ => ⟨∅, by simp, Nat.zero_le _⟩

omit [DecidableEq τ] [DecidableEq C] in
/-- An amount that is there is covered by a woken thread. -/
theorem Covered.exists_woken {n : Nat} (h : Covered d c s n) (hn : 0 < n) (hq : s.queue c ≠ []) :
    ∃ u, s.Woken c u := by
  obtain ⟨W, hW, hsum⟩ := h hq
  have hne : W.Nonempty := by
    rw [Finset.nonempty_iff_ne_empty]
    rintro rfl
    rw [Finset.sum_empty] at hsum
    omega
  obtain ⟨u, hu⟩ := hne
  exact ⟨u, hW u hu⟩

omit [DecidableEq τ] [DecidableEq C] in
/-- Where every woken thread takes one, there are as many of them as there is to take. -/
theorem Covered.le_encard {n : Nat} (h : Covered (fun _ => 1) c s n) (hq : s.queue c ≠ []) :
    (n : ENat) ≤ {u | s.Woken c u}.encard := by
  obtain ⟨W, hW, hsum⟩ := h hq
  have hone : ∀ u ∈ W, (s.pcs u).demand (fun _ => 1) = 1 := by
    intro u hu
    obtain ⟨-, ℓ, k, hk⟩ := hW u hu
    rw [hk]
    rfl
  rw [Finset.sum_congr rfl hone, ← Finset.card_eq_sum_ones] at hsum
  calc (n : ENat) ≤ (W.card : ENat) := by exact_mod_cast hsum
    _ = (W : Set τ).encard := (Set.encard_coe_eq_coe_finsetCard W).symm
    _ ≤ {u | s.Woken c u}.encard := Set.encard_le_encard fun u hu => hW u hu

omit [DecidableEq C] in
/-- The threads other than `t`, when `t` goes on from the queue `c`. -/
theorem Covered.resume {n n' : Nat} (h : Covered d c s n) {k : κ}
    (ht : s.pcs t = .waiting c () k) (hn : n' ≤ n - d k) (hq : s'.queue c = s.queue c)
    (hpcs : ∀ u, u ≠ t → s'.pcs u = s.pcs u) : Covered d c s' n' := by
  intro hne
  obtain ⟨W, hW, hsum⟩ := h (by rwa [← hq])
  have hstay : ∀ u ∈ W.erase t, s'.Woken c u ∧ s'.pcs u = s.pcs u := by
    intro u hu
    obtain ⟨hut, hu⟩ := Finset.mem_erase.1 hu
    obtain ⟨hnq, ℓ, k₁, hk₁⟩ := hW u hu
    refine ⟨⟨by rwa [hq], ℓ, k₁, ?_⟩, hpcs u hut⟩
    rw [hpcs u hut, hk₁]
  refine ⟨W.erase t, fun u hu => (hstay u hu).1, ?_⟩
  have hrest : ∑ u ∈ W.erase t, (s'.pcs u).demand d = ∑ u ∈ W.erase t, (s.pcs u).demand d :=
    Finset.sum_congr rfl fun u hu => by rw [(hstay u hu).2]
  have herase : ∑ u ∈ W, (s.pcs u).demand d ≤ ∑ u ∈ W.erase t, (s.pcs u).demand d + d k := by
    by_cases htW : t ∈ W
    · rw [← Finset.sum_erase_add W _ htW, ht]
      rfl
    · rw [Finset.erase_eq_of_notMem htW]
      exact Nat.le_add_right _ _
  omega

omit [DecidableEq C] in
/-- A signal moves the head of the queue `c` to the woken threads. -/
theorem Covered.signal {n n' : Nat} (h : Covered d c s n) (hs : Sound P s)
    (hd : ∀ u k, s.pcs u = .waiting c () k → 1 ≤ d k) (hn : n' ≤ n + 1) {k : κ}
    (ht : s.pcs t = .active k) (hq : s'.queue c = (s.queue c).tail)
    (hpcs : ∀ u, u ≠ t → s'.pcs u = s.pcs u) : Covered d c s' n' := by
  intro hne
  -- the head of the queue joins the woken threads
  cases hqueue : s.queue c with
  | nil =>
      rw [hq, hqueue] at hne
      exact absurd rfl hne
  | cons w rest =>
      obtain ⟨W, hW, hsum⟩ := h (by simp [hqueue])
      have hnodup := hs.nodup c
      rw [hqueue, List.nodup_cons] at hnodup
      have hq' : s'.queue c = rest := by rw [hq, hqueue, List.tail_cons]
      obtain ⟨ℓ, k₁, hk₁⟩ := hs.asleep c w (by simp [hqueue])
      have hwait : ∀ u, (∃ ℓ k, s.pcs u = .waiting c ℓ k) → s'.pcs u = s.pcs u := by
        rintro u ⟨ℓ', k', hk'⟩
        apply hpcs
        rintro rfl
        rw [ht] at hk'
        cases hk'
      have hwW : w ∉ W := fun hw => (hW w hw).1 (by simp [hqueue])
      have hpw := hwait w ⟨ℓ, k₁, hk₁⟩
      refine ⟨insert w W, fun u hu => ?_, ?_⟩
      · rcases Finset.mem_insert.1 hu with rfl | hu
        · exact ⟨by rw [hq']; exact hnodup.1, ℓ, k₁, hpw.trans hk₁⟩
        · obtain ⟨hnq, hwu⟩ := hW u hu
          refine ⟨fun hmem => hnq ?_, ?_⟩
          · rw [hqueue]
            exact List.mem_cons_of_mem w (hq' ▸ hmem)
          · rw [hwait u hwu]
            exact hwu
      · have hold : ∑ u ∈ W, (s'.pcs u).demand d = ∑ u ∈ W, (s.pcs u).demand d :=
          Finset.sum_congr rfl fun u hu => by rw [hwait u (hW u hu).2]
        have hone : 1 ≤ (s'.pcs w).demand d := by
          rw [hpw, hk₁]
          exact hd w k₁ hk₁
        rw [Finset.sum_insert hwW, hold]
        omega

omit [DecidableEq τ] [DecidableEq C] in
theorem Balanced.of_held (h : Sound P s) {k : κ} (ht : s.pcs t = .active k)
    (ho : P.owns k () = true) (hc : Covered d c s (need k s.shared))
    (he : ∀ t k, s.pcs t = .waiting c () k → 1 ≤ d k) : Balanced P c d supply need s := by
  have hcons : Consistent P (fun _ => False) (fun k₁ _ => k₁ = k) s := Consistent.of_held h ht ho rfl
  refine ⟨fun hfree => absurd (hcons.free hfree) id, fun u k₁ hu ho₁ => ?_, he⟩
  obtain rfl := hcons.held u k₁ hu ho₁
  exact hc

omit [DecidableEq τ] [DecidableEq C] in
theorem Balanced.of_free (h : Sound P s) (hfree : s.holder () = none)
    (hc : Covered d c s (supply s.shared))
    (he : ∀ t k, s.pcs t = .waiting c () k → 1 ≤ d k) : Balanced P c d supply need s := by
  refine ⟨fun _ => hc, fun u k₁ hu ho₁ => ?_, he⟩
  have := h.not_owns hfree u
  rw [hu] at this
  exact absurd (ho₁.symm.trans this) (by simp)

omit [DecidableEq C] in
theorem Balanced.eager_update (h : Balanced P c d supply need s) {pc : Pc Unit C κ}
    (hpc : ∀ k, pc = .waiting c () k → 1 ≤ d k) (u : τ) (k : κ)
    (hu : Function.update s.pcs t pc u = .waiting c () k) : 1 ≤ d k := by
  by_cases hut : u = t
  · subst hut
    rw [Function.update_self] at hu
    exact hpc k hu
  · rw [Function.update_of_ne hut] at hu
    exact h.eager u k hu

/-- Step lemma. -/
theorem Accounts.step (ha : Accounts P ok F D c d supply need) (hok : ok s t) (hs : Step P s t s')
    (h : Sound P s) (hc : Consistent P F D s) (hg : Guarded P F D)
    (hb : Balanced P c d supply need s) : Balanced P c d supply need s' := by
  have hsound := hs.sound h
  have hother : ∀ {pc : Pc Unit C κ} (u : τ), u ≠ t → Function.update s.pcs t pc u = s.pcs u :=
    fun u hu => Function.update_of_ne hu _ _
  cases hs with
  | @run k k' x hk hr =>
      have howns := P.owns_runs _ _ _ _ _ hr
      have he : ∀ u k₁, Function.update s.pcs t (.active k') u = .waiting c () k₁ → 1 ≤ d k₁ :=
        hb.eager_update fun _ e => nomatch e
      by_cases ho : P.owns k () = true
      · have hcov := ha.inside s t k k' x hok hk ho (hc.held t k hk ho) hr (hb.held t k hk ho)
        apply Balanced.of_held hsound (Function.update_self ..) _ _ he
        · rw [howns, ho]
        · exact hcov.move le_rfl hk rfl hother
      · -- the data are as they were, and nobody has got or lost the lock
        have ho' : P.owns k () = false := by simpa using ho
        obtain rfl := hg.outside t k k' _ x ho' hr
        refine ⟨fun hfree => (hb.free hfree).move le_rfl hk rfl hother, fun u k₁ hu ho₁ => ?_, he⟩
        by_cases hut : u = t
        · subst hut
          simp only [Function.update_self, Pc.active.injEq] at hu
          subst hu
          rw [howns, ho'] at ho₁
          cases ho₁
        · simp only [Function.update_of_ne hut] at hu
          exact (hb.held u k₁ hu ho₁).move le_rfl hk rfl hother
  | @acquire k k' ℓ hk hcall hfree =>
      apply Balanced.of_held hsound (Function.update_self ..)
      · rw [(P.owns_calls _ _ _ hcall).2]
        exact Function.update_self ..
      · exact (hb.free hfree).move (ha.acquire t k k' _ hcall (hc.free hfree)) hk rfl hother
      · exact hb.eager_update fun _ e => nomatch e
  | @release k k' ℓ hk hcall =>
      have hown := (P.owns_calls _ _ _ hcall).1
      apply Balanced.of_free hsound (Function.update_self ℓ none s.holder)
      · have hle := ha.release t k k' _ hcall (hc.held t k hk hown)
        exact (hb.held t k hk hown).move hle hk rfl hother
      · exact hb.eager_update fun _ e => nomatch e
  | @wait k k' c' ℓ hk hcall =>
      have hown := (P.owns_calls _ _ _ hcall).1
      have hD := hc.held t k hk hown
      apply Balanced.of_free hsound (Function.update_self ℓ none s.holder)
      · by_cases hcc : c' = c
        · subst hcc
          have hzero := (ha.waitHere t k k' _ hcall hD).1
          simp only
          rw [hzero]
          exact Covered.zero
        · have hle := ha.waitElse t c' k k' _ hcall hD hcc
          exact (hb.held t k hk hown).move hle hk (Function.update_of_ne (Ne.symm hcc) _ _) hother
      · apply hb.eager_update
        intro k₁ e
        cases e
        exact (ha.waitHere t k k' _ hcall hD).2
  | @resume k c' ℓ hk hq hfree =>
      obtain ⟨k₀, hcall⟩ := h.called t c' ℓ k hk
      obtain ⟨hown, ho⟩ := P.owns_calls _ _ _ hcall
      apply Balanced.of_held hsound (Function.update_self ..)
      · rw [ho]
        exact hown
      · by_cases hcc : c' = c
        · subst hcc
          exact (hb.free hfree).resume hk (ha.resumeHere k₀ k _ hcall (hc.free hfree)) rfl hother
        · have hle := ha.resumeElse c' k₀ k _ hcall (hc.free hfree) hcc
          refine (hb.free hfree).mono hle id fun u hu => ?_
          have hut : u ≠ t := by
            rintro rfl
            obtain ⟨-, ℓ', k', hk'⟩ := hu
            rw [hk] at hk'
            cases hk'
            exact hcc rfl
          have hpu : Function.update s.pcs t (.active k) u = s.pcs u := hother u hut
          obtain ⟨hnq, ℓ', k', hk'⟩ := hu
          exact ⟨⟨hnq, ℓ', k', hpu.trans hk'⟩, hpu⟩
      · exact hb.eager_update fun _ e => nomatch e
  | @signal k k' c' ℓ hk hcall =>
      obtain ⟨hown, ho⟩ := P.owns_calls _ _ _ hcall
      have hD := hc.held t k hk hown
      apply Balanced.of_held hsound (Function.update_self ..)
      · rw [ho]
        exact hown
      · by_cases hcc : c' = c
        · subst hcc
          exact (hb.held t k hk hown).signal h hb.eager (ha.signalHere t k k' _ hcall hD) hk
            (Function.update_self ..) hother
        · exact (hb.held t k hk hown).move (ha.signalElse t c' k k' _ hcall hD hcc) hk
            (Function.update_of_ne (Ne.symm hcc) _ _) hother
      · exact hb.eager_update fun _ e => nomatch e
  | @broadcast k k' c' ℓ hk hcall =>
      obtain ⟨hown, ho⟩ := P.owns_calls _ _ _ hcall
      have hD := hc.held t k hk hown
      apply Balanced.of_held hsound (Function.update_self ..)
      · rw [ho]
        exact hown
      · by_cases hcc : c' = c
        · subst hcc
          intro hne
          exact absurd (Function.update_self ..) hne
        · exact (hb.held t k hk hown).move (ha.broadcastElse t c' k k' _ hcall hD hcc) hk
            (Function.update_of_ne (Ne.symm hcc) _ _) hother
      · exact hb.eager_update fun _ e => nomatch e

/-- Run lemma. -/
theorem Accounts.balanced (ha : Accounts P ok F D c d supply need) (hg : Guarded P F D) {x : σ}
    (hx : F x) (h : Reach (Step P) ok (P.init x) s) : Balanced P c d supply need s := by
  have hall : Sound P s ∧ Consistent P F D s ∧ Balanced P c d supply need s := by
    refine h.invariant
      (I := fun s => Sound P s ∧ Consistent P F D s ∧ Balanced P c d supply need s) ?_ ?_
    · rintro s₁ u s₂ ⟨hI, hcons, hbal⟩ hok hs
      exact ⟨hs.sound hI, hg.step hs hI hcons, ha.step hok hs hI hcons hg hbal⟩
    · refine ⟨sound_init x, Consistent.of_free (sound_init x) rfl hx, ?_⟩
      apply Balanced.of_free (sound_init x) rfl
      · intro hne
        exact absurd rfl hne
      · intro u k hu
        cases hu
  exact hall.2.2

end OneLock

end Os161.Lib.Monitor

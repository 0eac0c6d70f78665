import Mathlib.Data.List.FinRange
import Mathlib.Tactic.Common

set_option autoImplicit false

/-!
# Straight-line programs that may stop

A kernel path is a program over an explicit state that returns a value or stops for a reason.
`Runs m s a s'` is the big-step relation: `m`, started in `s`, returns `a` and leaves the state
`s'`; `Stops m s r` says that it stops with the reason `r` instead. The inversion lemmas take the
run of a composed program apart (`runs_bind`, `runs_ite`, `stops_bind`), and three loop
combinators cover the `for` loops of C over an index list: `forEach` visits every index,
`scanFirst` leaves at the first index that passes a test, and `scanLast` visits all of them and
remembers the last one that passed. `Frame view m` says that `m` leaves alone what `view` shows of
the state, and `Keeps I m Q` and `Stable I m` that it keeps an invariant.
-/

namespace Os161.Lib.Program

variable {σ ε α β ι : Type}

/-- Programs over the state `σ` that may stop with a reason in `ε`. -/
abbrev Prog (σ ε α : Type) : Type := StateT σ (Except ε) α

/-- The program `m`, started in `s`, returns `a` in the state `s'`. -/
def Runs (m : Prog σ ε α) (s : σ) (a : α) (s' : σ) : Prop := m s = .ok (a, s')

/-! ## Inversion of runs -/

@[simp] theorem runs_pure (a b : α) (s s' : σ) :
    Runs (pure a : Prog σ ε α) s b s' ↔ b = a ∧ s' = s := by
  unfold Runs
  constructor
  · intro h
    cases h
    exact ⟨rfl, rfl⟩
  · rintro ⟨rfl, rfl⟩
    rfl

@[simp] theorem runs_bind (m : Prog σ ε α) (f : α → Prog σ ε β) (s : σ) (b : β) (s'' : σ) :
    Runs (m >>= f) s b s'' ↔ ∃ a s', Runs m s a s' ∧ Runs (f a) s' b s'' := by
  have e : (m >>= f) s = (m s >>= fun x => f x.1 x.2) := rfl
  unfold Runs
  rw [e]
  cases hm : m s with
  | error r =>
      constructor
      · intro h
        cases h
      · rintro ⟨a, s', h, -⟩
        cases h
  | ok x =>
      rcases x with ⟨a, s'⟩
      constructor
      · intro h
        exact ⟨a, s', rfl, h⟩
      · rintro ⟨a', t, h, hf⟩
        cases h
        exact hf

@[simp] theorem runs_map (m : Prog σ ε α) (f : α → β) (s : σ) (b : β) (s' : σ) :
    Runs (f <$> m) s b s' ↔ ∃ a, Runs m s a s' ∧ b = f a := by
  have e : (f <$> m) = (m >>= fun a => pure (f a)) := rfl
  rw [e, runs_bind]
  constructor
  · rintro ⟨a, t, h, hp⟩
    obtain ⟨rfl, rfl⟩ := (runs_pure _ _ _ _).1 hp
    exact ⟨a, h, rfl⟩
  · rintro ⟨a, h, rfl⟩
    exact ⟨a, s', h, (runs_pure _ _ _ _).2 ⟨rfl, rfl⟩⟩

@[simp] theorem runs_throw (r : ε) (s : σ) (a : α) (s' : σ) :
    ¬ Runs (throw r : Prog σ ε α) s a s' := by
  intro h
  cases h

@[simp] theorem runs_get (s a s' : σ) :
    Runs (get : Prog σ ε σ) s a s' ↔ a = s ∧ s' = s := by
  unfold Runs
  constructor
  · intro h
    cases h
    exact ⟨rfl, rfl⟩
  · rintro ⟨rfl, rfl⟩
    rfl

@[simp] theorem runs_modify (f : σ → σ) (s : σ) (u : Unit) (s' : σ) :
    Runs (modify f : Prog σ ε Unit) s u s' ↔ s' = f s := by
  unfold Runs
  constructor
  · intro h
    cases h
    rfl
  · rintro rfl
    rfl

@[simp] theorem runs_ite (c : Prop) [Decidable c] (m m' : Prog σ ε α) (s : σ) (a : α) (s' : σ) :
    Runs (if c then m else m') s a s' ↔ (c ∧ Runs m s a s') ∨ (¬ c ∧ Runs m' s a s') := by
  by_cases h : c <;> simp [h]

/-- A first part that returns can be run ahead. -/
theorem bind_of_runs {m : Prog σ ε α} {s s' : σ} {a : α} (h : Runs m s a s')
    (f : α → Prog σ ε β) : (m >>= f) s = f a s' := by
  have e : (m >>= f) s = (m s >>= fun x => f x.1 x.2) := rfl
  unfold Runs at h
  rw [e, h]
  rfl

/-- Two programs with the same first part agree when their second parts agree wherever the first
part can lead. -/
theorem bind_congr_of_runs {m : Prog σ ε α} {f g : α → Prog σ ε β} {s : σ}
    (h : ∀ a s', Runs m s a s' → f a s' = g a s') : (m >>= f) s = (m >>= g) s := by
  have e : ∀ f : α → Prog σ ε β, (m >>= f) s = (m s >>= fun x => f x.1 x.2) := fun _ => rfl
  rw [e, e]
  cases hm : m s with
  | error r => rfl
  | ok x => exact h x.1 x.2 hm

/-- A program has at most one result. -/
theorem Runs.det {m : Prog σ ε α} {s s' s'' : σ} {a b : α} (h : Runs m s a s')
    (h' : Runs m s b s'') : a = b ∧ s' = s'' := by
  unfold Runs at h h'
  rw [h] at h'
  cases h'
  exact ⟨rfl, rfl⟩

/-! ## Paths that stop -/

/-- The program `m`, started in `s`, stops with the reason `r`. -/
def Stops (m : Prog σ ε α) (s : σ) (r : ε) : Prop := m s = .error r

@[simp] theorem stops_pure (a : α) (s : σ) (r : ε) : ¬ Stops (pure a : Prog σ ε α) s r := by
  intro h
  cases h

@[simp] theorem stops_bind (m : Prog σ ε α) (f : α → Prog σ ε β) (s : σ) (r : ε) :
    Stops (m >>= f) s r ↔ Stops m s r ∨ ∃ a s', Runs m s a s' ∧ Stops (f a) s' r := by
  have e : (m >>= f) s = (m s >>= fun x => f x.1 x.2) := rfl
  unfold Stops Runs
  rw [e]
  cases hm : m s with
  | error r' =>
      constructor
      · intro h
        cases h
        exact .inl rfl
      · rintro (h | ⟨a, s', h, -⟩)
        · cases h
          rfl
        · cases h
  | ok x =>
      rcases x with ⟨a, s'⟩
      constructor
      · intro h
        exact .inr ⟨a, s', rfl, h⟩
      · rintro (h | ⟨a', t, h, hf⟩)
        · cases h
        · cases h
          exact hf

@[simp] theorem stops_map (m : Prog σ ε α) (f : α → β) (s : σ) (r : ε) :
    Stops (f <$> m) s r ↔ Stops m s r := by
  have e : (f <$> m) = (m >>= fun a => pure (f a)) := rfl
  rw [e, stops_bind]
  simp

@[simp] theorem stops_throw (r r' : ε) (s : σ) :
    Stops (throw r : Prog σ ε α) s r' ↔ r' = r := by
  constructor
  · intro h
    cases h
    rfl
  · rintro rfl
    rfl

@[simp] theorem stops_get (s : σ) (r : ε) : ¬ Stops (get : Prog σ ε σ) s r := by
  intro h
  cases h

@[simp] theorem stops_modify (f : σ → σ) (s : σ) (r : ε) :
    ¬ Stops (modify f : Prog σ ε Unit) s r := by
  intro h
  cases h

@[simp] theorem stops_ite (c : Prop) [Decidable c] (m m' : Prog σ ε α) (s : σ) (r : ε) :
    Stops (if c then m else m') s r ↔ (c ∧ Stops m s r) ∨ (¬ c ∧ Stops m' s r) := by
  by_cases h : c <;> simp [h]

/-! ## Loops over an index list -/

/-- `for` loop that runs `body` at every index of the list. -/
def forEach (body : ι → Prog σ ε Unit) : List ι → Prog σ ε Unit
  | [] => pure ()
  | i :: is => do
      body i
      forEach body is

/-- `for` loop that leaves at the first index that passes `test`. -/
def scanFirst (test : ι → Prog σ ε Bool) : List ι → Prog σ ε (Option ι)
  | [] => pure none
  | i :: is => do
      if (← test i) then return some i
      scanFirst test is

/-- `for` loop that visits every index and remembers the last one that passed `test`. -/
def scanLast (test : ι → Prog σ ε Bool) (found : Option ι) : List ι → Prog σ ε (Option ι)
  | [] => pure found
  | i :: is => do
      let b ← test i
      scanLast test (if b then some i else found) is

/-- Loop rule. The invariant may speak about the indices that are still to be visited. -/
theorem runs_forEach {b : ι → Prog σ ε Unit} {I : List ι → σ → Prop}
    (hb : ∀ i is s u s', I (i :: is) s → Runs (b i) s u s' → I is s') :
    ∀ (l : List ι) {s s' : σ} {u : Unit}, I l s → Runs (forEach b l) s u s' → I [] s'
  | [], s, s', u, hs, h => by
      obtain ⟨-, rfl⟩ := (runs_pure _ _ _ _).1 h
      exact hs
  | i :: is, s, s', u, hs, h => by
      obtain ⟨v, t, h₁, h₂⟩ := (runs_bind _ _ _ _ _).1 h
      exact runs_forEach hb is (hb i is s v t hs h₁) h₂

/-- `test` only reads the state `s`, and answers `p` there. -/
def Reads (test : ι → Prog σ ε Bool) (s : σ) (p : ι → Bool) : Prop :=
  ∀ i b s', Runs (test i) s b s' → s' = s ∧ b = p i

/-- A search that only reads finds the first index with `p`. -/
theorem runs_scanFirst {test : ι → Prog σ ε Bool} {s : σ} {p : ι → Bool} (ht : Reads test s p) :
    ∀ (l : List ι) {r : Option ι} {s' : σ}, Runs (scanFirst test l) s r s' →
      s' = s ∧ r = l.find? p
  | [], r, s', h => by
      obtain ⟨rfl, rfl⟩ := (runs_pure _ _ _ _).1 h
      exact ⟨rfl, rfl⟩
  | i :: is, r, s', h => by
      obtain ⟨b, t, h₁, h₂⟩ := (runs_bind _ _ _ _ _).1 h
      obtain ⟨rfl, rfl⟩ := ht i b t h₁
      rcases (runs_ite _ _ _ _ _ _).1 h₂ with ⟨hc, h₃⟩ | ⟨hc, h₃⟩
      · obtain ⟨rfl, rfl⟩ := (runs_pure _ _ _ _).1 h₃
        exact ⟨rfl, by simp [hc]⟩
      · obtain ⟨rfl, rfl⟩ := runs_scanFirst ht is h₃
        exact ⟨rfl, by simp [hc]⟩

/-- A search whose tests return does return. -/
theorem scanFirst_returns {test : ι → Prog σ ε Bool} {s : σ} {p : ι → Bool}
    (ht : ∀ i, Runs (test i) s (p i) s) :
    ∀ l : List ι, Runs (scanFirst test l) s (l.find? p) s
  | [] => (runs_pure _ _ _ _).2 ⟨rfl, rfl⟩
  | i :: is => by
      refine (runs_bind _ _ _ _ _).2 ⟨p i, s, ht i, (runs_ite _ _ _ _ _ _).2 ?_⟩
      cases hp : p i with
      | true => exact .inl ⟨rfl, (runs_pure _ _ _ _).2 ⟨by simp [hp], rfl⟩⟩
      | false =>
          refine .inr ⟨by simp, ?_⟩
          simpa [hp] using scanFirst_returns ht is

/-- A search that finds an index has passed the earlier ones. -/
theorem scanFirst_tests {test : ι → Prog σ ε Bool} {s : σ} {p : ι → Bool} (ht : Reads test s p) :
    ∀ (l : List ι) {i : ι} {s' : σ}, Runs (scanFirst test l) s (some i) s' →
      ∃ l₁ l₂, l = l₁ ++ i :: l₂ ∧ Runs (test i) s true s ∧ ∀ j ∈ l₁, Runs (test j) s false s
  | [], i, s', h => by
      obtain ⟨h, -⟩ := (runs_pure _ _ _ _).1 h
      cases h
  | j :: js, i, s', h => by
      obtain ⟨b, t, h₁, h₂⟩ := (runs_bind _ _ _ _ _).1 h
      obtain ⟨rfl, -⟩ := ht j b t h₁
      cases b with
      | true =>
          obtain ⟨h₃, -⟩ := (runs_pure _ _ _ _).1 h₂
          cases h₃
          exact ⟨[], js, rfl, h₁, by simp⟩
      | false =>
          obtain ⟨l₁, l₂, rfl, hi, hl₁⟩ := scanFirst_tests ht js h₂
          refine ⟨j :: l₁, l₂, rfl, hi, fun k hk => ?_⟩
          rcases List.mem_cons.1 hk with rfl | hk
          · exact h₁
          · exact hl₁ k hk

/-- A search that has passed the earlier indices returns the first one with the test. -/
theorem scanFirst_finds {test : ι → Prog σ ε Bool} {s : σ} {i : ι} (l₂ : List ι)
    (hi : Runs (test i) s true s) :
    ∀ l₁ : List ι, (∀ j ∈ l₁, Runs (test j) s false s) →
      Runs (scanFirst test (l₁ ++ i :: l₂)) s (some i) s
  | [], _ => (runs_bind _ _ _ _ _).2 ⟨true, s, hi, (runs_pure _ _ _ _).2 ⟨rfl, rfl⟩⟩
  | j :: js, h => by
      have hrest := scanFirst_finds l₂ hi js fun k hk => h k (List.mem_cons_of_mem j hk)
      exact (runs_bind _ _ _ _ _).2 ⟨false, s, h j List.mem_cons_self, hrest⟩

/-- A search that stops has stopped in one of its tests. -/
theorem stops_scanFirst {test : ι → Prog σ ε Bool} {s : σ} {p : ι → Bool} {r : ε}
    (ht : Reads test s p) :
    ∀ l : List ι, Stops (scanFirst test l) s r → ∃ i ∈ l, Stops (test i) s r
  | [], h => absurd h (stops_pure _ _ _)
  | i :: is, h => by
      rcases (stops_bind _ _ _ _).1 h with h | ⟨b, t, h₁, h₂⟩
      · exact ⟨i, List.mem_cons_self, h⟩
      · obtain ⟨rfl, -⟩ := ht i b t h₁
        cases b with
        | true => exact absurd h₂ (stops_pure _ _ _)
        | false =>
            obtain ⟨j, hj, hstop⟩ := stops_scanFirst ht is h₂
            exact ⟨j, List.mem_cons_of_mem i hj, hstop⟩

/-- A full scan that only reads ends with the last index that has `p`, or with what it started
from when none has. -/
theorem runs_scanLast {test : ι → Prog σ ε Bool} {s : σ} {p : ι → Bool} (ht : Reads test s p) :
    ∀ (l : List ι) {found r : Option ι} {s' : σ}, Runs (scanLast test found l) s r s' →
      s' = s ∧ r = (l.reverse.find? p).or found
  | [], found, r, s', h => by
      obtain ⟨rfl, rfl⟩ := (runs_pure _ _ _ _).1 h
      exact ⟨rfl, rfl⟩
  | i :: is, found, r, s', h => by
      obtain ⟨b, t, h₁, h₂⟩ := (runs_bind _ _ _ _ _).1 h
      obtain ⟨rfl, rfl⟩ := ht i b t h₁
      obtain ⟨rfl, rfl⟩ := runs_scanLast ht is h₂
      refine ⟨rfl, ?_⟩
      rw [List.reverse_cons, List.find?_append, Option.or_assoc]
      cases hp : p i <;> simp [hp]

/-- All tests of a full scan that returns have returned. -/
theorem scanLast_tests {test : ι → Prog σ ε Bool} {s : σ} {p : ι → Bool} (ht : Reads test s p) :
    ∀ (l : List ι) {found r : Option ι} {s' : σ}, Runs (scanLast test found l) s r s' →
      ∀ i ∈ l, Runs (test i) s (p i) s
  | [], _, _, _, _ => by simp
  | i :: is, found, r, s', h => by
      obtain ⟨b, t, h₁, h₂⟩ := (runs_bind _ _ _ _ _).1 h
      obtain ⟨rfl, rfl⟩ := ht i b t h₁
      intro j hj
      rcases List.mem_cons.1 hj with rfl | hj
      · exact h₁
      · exact scanLast_tests ht is h₂ j hj

/-- A full scan whose tests return does return. -/
theorem scanLast_returns {test : ι → Prog σ ε Bool} {s : σ} {p : ι → Bool} :
    ∀ (l : List ι) (found : Option ι), (∀ i ∈ l, Runs (test i) s (p i) s) →
      Runs (scanLast test found l) s ((l.reverse.find? p).or found) s
  | [], found, _ => (runs_pure _ _ _ _).2 ⟨rfl, rfl⟩
  | i :: is, found, ht => by
      have hi := ht i List.mem_cons_self
      have hrest := scanLast_returns is (if p i then some i else found) fun j hj =>
        ht j (List.mem_cons_of_mem i hj)
      have hfind : ((i :: is).reverse.find? p).or found =
          (is.reverse.find? p).or (if p i then some i else found) := by
        rw [List.reverse_cons, List.find?_append, Option.or_assoc]
        cases hp : p i <;> simp [hp]
      rw [hfind]
      exact (runs_bind _ _ _ _ _).2 ⟨p i, s, hi, hrest⟩

/-! ## Frames -/

/-- What `view` shows of the state is not changed by `m`. As a class, so that the frame of a
program is found from the frames of its parts. -/
class Frame {γ : Type} (view : σ → γ) (m : Prog σ ε α) : Prop where
  keeps : ∀ s a s', Runs m s a s' → view s' = view s

section Frames

variable {γ : Type} {view : σ → γ}

instance Frame.pure (a : α) : Frame view (Pure.pure a : Prog σ ε α) :=
  ⟨fun s b s' h => by rw [((runs_pure _ _ _ _).1 h).2]⟩

instance Frame.throw (r : ε) : Frame view (MonadExcept.throw r : Prog σ ε α) :=
  ⟨fun s a s' h => absurd h (runs_throw r s a s')⟩

instance Frame.get : Frame view (MonadState.get : Prog σ ε σ) :=
  ⟨fun s a s' h => by rw [((runs_get _ _ _).1 h).2]⟩

instance Frame.bind {m : Prog σ ε α} {f : α → Prog σ ε β} [Frame view m] [∀ a, Frame view (f a)] :
    Frame view (m >>= f) := by
  refine ⟨fun s b s' h => ?_⟩
  obtain ⟨a, t, h₁, h₂⟩ := (runs_bind _ _ _ _ _).1 h
  exact (Frame.keeps t b s' h₂).trans (Frame.keeps s a t h₁)

/-- The rule for a second part that has to be looked at case by case. -/
theorem Frame.seq {m : Prog σ ε α} {f : α → Prog σ ε β} [Frame view m]
    (hf : ∀ a, Frame view (f a)) : Frame view (m >>= f) :=
  Frame.bind

instance Frame.ite {c : Prop} [Decidable c] {m m' : Prog σ ε α} [Frame view m] [Frame view m'] :
    Frame view (if c then m else m') := by
  by_cases h : c
  · simpa [h]
  · simpa [h]

instance Frame.forEach {body : ι → Prog σ ε Unit} [∀ i, Frame view (body i)] :
    ∀ l : List ι, Frame view (forEach body l)
  | [] => Frame.pure ()
  | _ :: is =>
      have : Frame view (Program.forEach body is) := Frame.forEach is
      Frame.bind

instance Frame.scanFirst {test : ι → Prog σ ε Bool} [∀ i, Frame view (test i)] :
    ∀ l : List ι, Frame view (scanFirst test l)
  | [] => Frame.pure none
  | _ :: is =>
      have : Frame view (Program.scanFirst test is) := Frame.scanFirst is
      Frame.bind

instance Frame.scanLast {test : ι → Prog σ ε Bool} [∀ i, Frame view (test i)] :
    ∀ (l : List ι) (found : Option ι), Frame view (scanLast test found l)
  | [], _ => Frame.pure _
  | _ :: is, _ =>
      have : ∀ found, Frame view (Program.scanLast test found is) := Frame.scanLast is
      Frame.bind

/-- What is computed from a part of the state that `m` keeps is kept too. -/
theorem Frame.comp {δ : Type} (view : σ → γ) {view' : σ → δ} (g : γ → δ) (h : ∀ s, view' s = g (view s))
    (m : Prog σ ε α) [Frame view m] : Frame view' m := by
  refine ⟨fun s a s' hr => ?_⟩
  have hkeep : view s' = view s := Frame.keeps s a s' hr
  rw [h s', h s, hkeep]

end Frames

/-! ## Invariants -/

/-- `m` keeps the invariant `I`, and what it returns has `Q`. -/
def Keeps (I : σ → Prop) (m : Prog σ ε α) (Q : α → Prop) : Prop :=
  ∀ s a s', I s → Runs m s a s' → I s' ∧ Q a

section Invariants

variable {I : σ → Prop} {Q : α → Prop} {R : β → Prop}

theorem Keeps.pure {a : α} (h : Q a) : Keeps I (Pure.pure a : Prog σ ε α) Q := by
  intro s b s' hs hr
  obtain ⟨rfl, rfl⟩ := (runs_pure _ _ _ _).1 hr
  exact ⟨hs, h⟩

theorem Keeps.throw (r : ε) : Keeps I (MonadExcept.throw r : Prog σ ε α) Q :=
  fun s a s' _ hr => absurd hr (runs_throw r s a s')

theorem Keeps.bind {m : Prog σ ε α} {f : α → Prog σ ε β} (hm : Keeps I m Q)
    (hf : ∀ a, Q a → Keeps I (f a) R) : Keeps I (m >>= f) R := by
  intro s b s' hs hr
  obtain ⟨a, t, h₁, h₂⟩ := (runs_bind _ _ _ _ _).1 hr
  obtain ⟨ht, ha⟩ := hm s a t hs h₁
  exact hf a ha t b s' ht h₂

theorem Keeps.ite {c : Prop} [Decidable c] {m m' : Prog σ ε α} (hm : Keeps I m Q)
    (hm' : Keeps I m' Q) : Keeps I (if c then m else m') Q := by
  by_cases h : c
  · simpa [h] using hm
  · simpa [h] using hm'

/-- A program that does not change what the invariant speaks about. -/
theorem Keeps.of_frame {γ : Type} (view : σ → γ) {J : γ → Prop} {m : Prog σ ε α} [Frame view m]
    (hI : ∀ s, I s ↔ J (view s)) : Keeps I m fun _ => True := by
  intro s a s' hs hr
  have hkeep : view s' = view s := Frame.keeps s a s' hr
  refine ⟨(hI s').2 ?_, trivial⟩
  rw [hkeep]
  exact (hI s).1 hs

/-- `m` keeps the invariant `I`. As a class, so that the invariance of a program is found from that
of its parts. -/
class Stable (I : σ → Prop) (m : Prog σ ε α) : Prop where
  keeps : ∀ s a s', I s → Runs m s a s' → I s'

instance Stable.pure (a : α) : Stable I (Pure.pure a : Prog σ ε α) :=
  ⟨fun s b s' hs h => by rwa [((runs_pure _ _ _ _).1 h).2]⟩

instance Stable.throw (r : ε) : Stable I (MonadExcept.throw r : Prog σ ε α) :=
  ⟨fun s a s' _ h => absurd h (runs_throw r s a s')⟩

instance Stable.get : Stable I (MonadState.get : Prog σ ε σ) :=
  ⟨fun s a s' hs h => by rwa [((runs_get _ _ _).1 h).2]⟩

theorem Stable.modify {f : σ → σ} (hf : ∀ s, I s → I (f s)) :
    Stable I (modify f : Prog σ ε Unit) :=
  ⟨fun s u s' hs h => by
    rw [(runs_modify _ _ _ _).1 h]
    exact hf s hs⟩

instance Stable.bind {m : Prog σ ε α} {f : α → Prog σ ε β} [Stable I m] [∀ a, Stable I (f a)] :
    Stable I (m >>= f) := by
  refine ⟨fun s b s' hs h => ?_⟩
  obtain ⟨a, t, h₁, h₂⟩ := (runs_bind _ _ _ _ _).1 h
  exact Stable.keeps t b s' (Stable.keeps s a t hs h₁) h₂

/-- The rule for a second part that has to be looked at case by case. -/
theorem Stable.seq {m : Prog σ ε α} {f : α → Prog σ ε β} [Stable I m]
    (hf : ∀ a, Stable I (f a)) : Stable I (m >>= f) :=
  Stable.bind

instance Stable.ite {c : Prop} [Decidable c] {m m' : Prog σ ε α} [Stable I m] [Stable I m'] :
    Stable I (if c then m else m') := by
  by_cases h : c
  · simpa [h]
  · simpa [h]

instance Stable.forEach {body : ι → Prog σ ε Unit} [∀ i, Stable I (body i)] :
    ∀ l : List ι, Stable I (forEach body l)
  | [] => Stable.pure ()
  | _ :: is =>
      have : Stable I (Program.forEach body is) := Stable.forEach is
      Stable.bind

instance Stable.scanFirst {test : ι → Prog σ ε Bool} [∀ i, Stable I (test i)] :
    ∀ l : List ι, Stable I (scanFirst test l)
  | [] => Stable.pure none
  | _ :: is =>
      have : Stable I (Program.scanFirst test is) := Stable.scanFirst is
      Stable.bind

instance Stable.scanLast {test : ι → Prog σ ε Bool} [∀ i, Stable I (test i)] :
    ∀ (l : List ι) (found : Option ι), Stable I (scanLast test found l)
  | [], _ => Stable.pure _
  | _ :: is, _ =>
      have : ∀ found, Stable I (Program.scanLast test found is) := Stable.scanLast is
      Stable.bind

end Invariants

end Os161.Lib.Program

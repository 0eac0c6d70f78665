import Mathlib.Tactic.Common

set_option autoImplicit false

/-!
# Calls that return an error number or panic

A C function of the kernel returns `0` with its results in the caller's variables, or an error
number, or it panics. `Call σ π ε α` is a program over the state `σ` that does the same: an error
in `ε` leaves what was already done to the state, a panic in `π` leaves no state at all.

`wp ok m Q s` is the weakest precondition: `m`, started in `s`, either returns a result and a state
for which `Q` holds, or panics with a panic in `ok`. The rules `wp_bind`, `wp_catching`, `wp_forEach`
and the others compute it along the program; `wp_mono` puts in what has been proved about a
function that is called. `Gives` is the same for a call that returns no error number.
-/

namespace Os161.Lib.Calls

variable {σ υ π ε α β ι : Type}

/-- Programs over the state `σ` that return a value or an error, or panic. -/
abbrev Call (σ π ε α : Type) : Type := ExceptT ε (StateT σ (Except π)) α

/-- The result and the state after the call, if it does not panic. -/
def Call.result (m : Call σ π ε α) (s : σ) : Except π (Except ε α × σ) := m.run.run s

/-- `panic` and failed assertions. -/
def halt (p : π) : Call σ π ε α := ExceptT.mk fun _ => .error p

/-- `result = f(...)`: the caller looks at the result itself. -/
def catching (m : Call σ π ε α) : Call σ π ε (Except ε α) :=
  ExceptT.mk fun s =>
    match m.result s with
    | .ok (r, t) => .ok (.ok r, t)
    | .error p => .error p

/-- `return result`. -/
def returning : Except ε α → Call σ π ε α
  | .ok a => pure a
  | .error e => throw e

/-- A call that has a variable of its own, with the value `u` at its start. -/
def withLocal (u : υ) (m : Call (σ × υ) π ε α) : Call σ π ε (α × υ) :=
  ExceptT.mk fun s =>
    match m.result (s, u) with
    | .ok (.ok a, t, v) => .ok (.ok (a, v), t)
    | .ok (.error e, t, _) => .ok (.error e, t)
    | .error p => .error p

/-- A call that does not look at the variable `υ`. -/
def framed (m : Call σ π ε α) : Call (σ × υ) π ε α :=
  ExceptT.mk fun (s, u) =>
    match m.result s with
    | .ok (r, t) => .ok (r, t, u)
    | .error p => .error p

/-- A call that looks at the variable `υ` only. -/
def onLocal (m : Call υ π ε α) : Call (σ × υ) π ε α :=
  ExceptT.mk fun (s, u) =>
    match m.result u with
    | .ok (r, v) => .ok (r, s, v)
    | .error p => .error p

/-- The body of a `for` loop, run for every index. -/
def forEach : List ι → (ι → Call σ π ε Unit) → Call σ π ε Unit
  | [], _ => pure ()
  | i :: is, f => do
      f i
      forEach is f

/-- Weakest precondition: a call may only panic with the panics in `ok`. -/
def wp (ok : π → Prop) (m : Call σ π ε α) (Q : Except ε α → σ → Prop) (s : σ) : Prop :=
  match m.result s with
  | .ok (r, t) => Q r t
  | .error p => ok p

variable {ok : π → Prop} {m : Call σ π ε α} {Q Q' : Except ε α → σ → Prop} {s t : σ}

/-! ## Rules for the parts of a program -/

@[simp] theorem wp_pure (a : α) : wp ok (pure a : Call σ π ε α) Q s ↔ Q (.ok a) s := Iff.rfl

@[simp] theorem wp_throw (e : ε) : wp ok (throw e : Call σ π ε α) Q s ↔ Q (.error e) s := Iff.rfl

@[simp] theorem wp_halt (p : π) : wp ok (halt p : Call σ π ε α) Q s ↔ ok p := Iff.rfl

@[simp] theorem wp_get {Q : Except ε σ → σ → Prop} :
    wp ok (get : Call σ π ε σ) Q s ↔ Q (.ok s) s := Iff.rfl

@[simp] theorem wp_modify (f : σ → σ) {Q : Except ε Unit → σ → Prop} :
    wp ok (modify f : Call σ π ε Unit) Q s ↔ Q (.ok ()) (f s) := Iff.rfl

@[simp] theorem wp_set {Q : Except ε Unit → σ → Prop} :
    wp ok (set t : Call σ π ε Unit) Q s ↔ Q (.ok ()) t := Iff.rfl

/-- What has to hold after the first part of `m >>= f`. -/
def Then (ok : π → Prop) (f : α → Call σ π ε β) (Q : Except ε β → σ → Prop) :
    Except ε α → σ → Prop
  | .ok a, t => wp ok (f a) Q t
  | .error e, t => Q (.error e) t

@[simp] theorem then_ok (f : α → Call σ π ε β) (Q : Except ε β → σ → Prop) (a : α) :
    Then ok f Q (.ok a) t ↔ wp ok (f a) Q t := Iff.rfl

@[simp] theorem then_error (f : α → Call σ π ε β) (Q : Except ε β → σ → Prop) (e : ε) :
    Then ok f Q (.error e) t ↔ Q (.error e) t := Iff.rfl

theorem result_bind (f : α → Call σ π ε β) : (m >>= f).result s =
    match m.result s with
    | .ok (.ok a, t) => (f a).result t
    | .ok (.error e, t) => .ok (.error e, t)
    | .error p => .error p := by
  simp only [Call.result, ExceptT.run_bind, StateT.run_bind]
  cases hm : m.run.run s with
  | error p => rfl
  | ok x =>
      obtain ⟨r, t⟩ := x
      cases r <;> rfl

@[simp] theorem wp_bind (f : α → Call σ π ε β) {Q : Except ε β → σ → Prop} :
    wp ok (m >>= f) Q s ↔ wp ok m (Then ok f Q) s := by
  unfold wp
  rw [result_bind]
  cases m.result s with
  | error p => rfl
  | ok x =>
      obtain ⟨r, t⟩ := x
      cases r <;> rfl

@[simp] theorem wp_map (f : α → β) {Q : Except ε β → σ → Prop} :
    wp ok (f <$> m) Q s ↔ wp ok m (fun r t => Q (r.map f) t) s := by
  rw [map_eq_pure_bind, wp_bind]
  unfold wp
  cases m.result s with
  | error p => rfl
  | ok x =>
      obtain ⟨r, t⟩ := x
      cases r <;> rfl

@[simp] theorem wp_ite (c : Prop) [Decidable c] (m' : Call σ π ε α) :
    wp ok (if c then m else m') Q s ↔ (c → wp ok m Q s) ∧ (¬ c → wp ok m' Q s) := by
  by_cases hc : c <;> simp [hc]

@[simp] theorem wp_dite (c : Prop) [Decidable c] (f : c → Call σ π ε α) (g : ¬ c → Call σ π ε α) :
    wp ok (if h : c then f h else g h) Q s ↔ (∀ h, wp ok (f h) Q s) ∧ ∀ h, wp ok (g h) Q s := by
  by_cases hc : c <;> simp [hc]

@[simp] theorem wp_catching {Q : Except ε (Except ε α) → σ → Prop} :
    wp ok (catching m) Q s ↔ wp ok m (fun r t => Q (.ok r) t) s := by
  have e : (catching m).result s = match m.result s with
      | .ok (r, t) => .ok (.ok r, t)
      | .error p => .error p := rfl
  unfold wp
  rw [e]
  cases m.result s <;> rfl

@[simp] theorem wp_returning (r : Except ε α) : wp ok (returning r : Call σ π ε α) Q s ↔ Q r s := by
  cases r <;> rfl

/-! ## What is known about a call -/

theorem wp_mono (h : wp ok m Q s) (hQ : ∀ r t, Q r t → Q' r t) : wp ok m Q' s := by
  unfold wp at *
  cases hm : m.result s with
  | error p =>
      rw [hm] at h
      exact h
  | ok x =>
      rw [hm] at h
      exact hQ _ _ h

theorem wp_and (h : wp ok m Q s) (h' : wp ok m Q' s) : wp ok m (fun r t => Q r t ∧ Q' r t) s := by
  unfold wp at *
  cases hm : m.result s with
  | error p =>
      rw [hm] at h
      exact h
  | ok x =>
      rw [hm] at h h'
      exact ⟨h, h'⟩

/-- Fewer panics are possible than were allowed. -/
theorem wp_weaken {ok' : π → Prop} (h : wp ok m Q s) (hok : ∀ p, ok p → ok' p) :
    wp ok' m Q s := by
  unfold wp at *
  cases hm : m.result s with
  | error p =>
      rw [hm] at h
      exact hok p h
  | ok x =>
      rw [hm] at h
      exact h

/-- A call that returns does so as its weakest precondition says. -/
theorem wp.returns {r : Except ε α} (h : wp ok m Q s) (hm : m.result s = .ok (r, t)) : Q r t := by
  unfold wp at h
  rw [hm] at h
  exact h

/-- A call that panics does so with an allowed panic. -/
theorem wp.panics {p : π} (h : wp ok m Q s) (hm : m.result s = .error p) : ok p := by
  unfold wp at h
  rw [hm] at h
  exact h

/-- A call that may not panic returns. -/
theorem wp.exists_result (h : wp (fun _ => False) m Q s) :
    ∃ r t, m.result s = .ok (r, t) ∧ Q r t := by
  cases hm : m.result s with
  | error p => exact (h.panics hm).elim
  | ok x => exact ⟨x.1, x.2, rfl, h.returns hm⟩

/-! ## Variables of a call -/

@[simp] theorem wp_withLocal {u : υ} {m : Call (σ × υ) π ε α}
    {Q : Except ε (α × υ) → σ → Prop} : wp ok (withLocal u m) Q s ↔
      wp ok m (fun r t => Q (r.map fun a => (a, t.2)) t.1) (s, u) := by
  have e : (withLocal u m).result s = match m.result (s, u) with
      | .ok (.ok a, t, v) => .ok (.ok (a, v), t)
      | .ok (.error e, t, _) => .ok (.error e, t)
      | .error p => .error p := rfl
  unfold wp
  rw [e]
  cases hm : m.result (s, u) with
  | error p => rfl
  | ok x =>
      obtain ⟨r, t, v⟩ := x
      cases r <;> rfl

@[simp] theorem wp_framed {u : υ} {Q : Except ε α → σ × υ → Prop} :
    wp ok (framed m) Q (s, u) ↔ wp ok m (fun r t => Q r (t, u)) s := by
  have e : (framed m).result (s, u) = match m.result s with
      | .ok (r, t) => .ok (r, t, u)
      | .error p => .error p := rfl
  unfold wp
  rw [e]
  cases m.result s <;> rfl

@[simp] theorem wp_onLocal {m : Call υ π ε α} {u : υ} {Q : Except ε α → σ × υ → Prop} :
    wp ok (onLocal m) Q (s, u) ↔ wp ok m (fun r v => Q r (s, v)) u := by
  have e : (onLocal m).result (s, u) = match m.result u with
      | .ok (r, v) => .ok (r, s, v)
      | .error p => .error p := rfl
  unfold wp
  rw [e]
  cases m.result u <;> rfl

/-! ## Loops -/

/-- Loop rule: `I is` holds when the body still has to be run for the indices `is`. -/
theorem wp_forEach {f : ι → Call σ π ε Unit} {Q : Except ε Unit → σ → Prop}
    (I : List ι → σ → Prop)
    (hstep : ∀ i is s, I (i :: is) s →
      wp ok (f i) (fun r t => match r with | .ok _ => I is t | .error e => Q (.error e) t) s)
    (hend : ∀ s, I [] s → Q (.ok ()) s) :
    ∀ {is : List ι} {s : σ}, I is s → wp ok (forEach is f) Q s
  | [], s, h => hend s h
  | i :: is, s, h => by
      rw [forEach, wp_bind]
      refine wp_mono (hstep i is s h) fun r t hr => ?_
      cases r with
      | ok u => exact wp_forEach I hstep hend hr
      | error e => exact hr

/-- The loop rule for a counter: `I i` holds before the round `i`. -/
theorem wp_forRange {f : Nat → Call σ π ε Unit} {Q : Except ε Unit → σ → Prop} {n : Nat}
    (I : Nat → σ → Prop)
    (hstep : ∀ i < n, ∀ s, I i s →
      wp ok (f i) (fun r t => match r with | .ok _ => I (i + 1) t | .error e => Q (.error e) t) s)
    (hend : ∀ s, I n s → Q (.ok ()) s) (h : I 0 s) : wp ok (forEach (List.range n) f) Q s := by
  have hloop : ∀ k i s, i + k = n → I i s → wp ok (forEach (List.range' i k) f) Q s := by
    intro k
    induction k with
    | zero =>
        intro i s hi hs
        rw [Nat.add_zero] at hi
        subst hi
        exact hend s hs
    | succ k ih =>
        intro i s hi hs
        rw [List.range'_succ, forEach, wp_bind]
        refine wp_mono (hstep i (by omega) s hs) fun r t hr => ?_
        cases r with
        | ok u => exact ih (i + 1) t (by omega) hr
        | error e => exact hr
  rw [List.range_eq_range']
  exact hloop n 0 s (Nat.zero_add n) h

/-! ## Calls that do not fail -/

/-- `m` returns a value, and `Q` holds of the value and the state; or it panics with a panic in
`ok`. -/
def Gives (ok : π → Prop) (m : Call σ π ε α) (Q : α → σ → Prop) (s : σ) : Prop :=
  wp ok m (fun r t => ∃ a, r = .ok a ∧ Q a t) s

section Gives

variable {P P' : α → σ → Prop}

@[simp] theorem gives_pure (a : α) : Gives ok (pure a : Call σ π ε α) P s ↔ P a s := by
  simp [Gives]

@[simp] theorem gives_halt (p : π) : Gives ok (halt p : Call σ π ε α) P s ↔ ok p := by
  simp [Gives]

@[simp] theorem gives_get {P : σ → σ → Prop} :
    Gives ok (get : Call σ π ε σ) P s ↔ P s s := by
  simp [Gives]

@[simp] theorem gives_modify (f : σ → σ) {P : Unit → σ → Prop} :
    Gives ok (modify f : Call σ π ε Unit) P s ↔ P () (f s) := by
  rw [Gives, wp_modify]
  constructor
  · rintro ⟨_, -, h⟩
    exact h
  · intro h
    exact ⟨(), rfl, h⟩

@[simp] theorem gives_set {P : Unit → σ → Prop} :
    Gives ok (set t : Call σ π ε Unit) P s ↔ P () t := by
  rw [Gives, wp_set]
  constructor
  · rintro ⟨_, -, h⟩
    exact h
  · intro h
    exact ⟨(), rfl, h⟩

@[simp] theorem gives_bind (f : α → Call σ π ε β) {P : β → σ → Prop} :
    Gives ok (m >>= f) P s ↔ Gives ok m (fun a t => Gives ok (f a) P t) s := by
  have e : Then ok f (fun r t => ∃ b, r = .ok b ∧ P b t) =
      fun r t => ∃ a, r = .ok a ∧ Gives ok (f a) P t := by
    funext r t
    cases r with
    | error e => simp
    | ok a => simp [Gives]
  rw [Gives, wp_bind, e]
  rfl

@[simp] theorem gives_ite (c : Prop) [Decidable c] (m' : Call σ π ε α) :
    Gives ok (if c then m else m') P s ↔ (c → Gives ok m P s) ∧ (¬ c → Gives ok m' P s) := by
  by_cases hc : c <;> simp [hc]

theorem gives_mono (h : Gives ok m P s) (hP : ∀ a t, P a t → P' a t) : Gives ok m P' s :=
  wp_mono h fun _ _ ⟨a, ha, hp⟩ => ⟨a, ha, hP _ _ hp⟩

@[simp] theorem gives_withLocal {u : υ} {m : Call (σ × υ) π ε α} {P : α × υ → σ → Prop} :
    Gives ok (withLocal u m) P s ↔ Gives ok m (fun a t => P (a, t.2) t.1) (s, u) := by
  rw [Gives, wp_withLocal, Gives]
  constructor
  · intro h
    refine wp_mono h fun r t ⟨a, ha, hp⟩ => ?_
    cases r with
    | error e => cases ha
    | ok b =>
        cases ha
        exact ⟨b, rfl, hp⟩
  · intro h
    refine wp_mono h fun r t ⟨a, ha, hp⟩ => ?_
    subst ha
    exact ⟨(a, t.2), rfl, hp⟩

/-- A call that returns gives a value with the property. -/
theorem Gives.returns {r : Except ε α} (h : Gives ok m P s) (hm : m.result s = .ok (r, t)) :
    ∃ a, r = .ok a ∧ P a t :=
  wp.returns h hm

theorem Gives.panics {p : π} (h : Gives ok m P s) (hm : m.result s = .error p) : ok p :=
  wp.panics h hm

/-- Loop rule. -/
theorem gives_forEach {f : ι → Call σ π ε Unit} {P : σ → Prop} (I : List ι → σ → Prop)
    (hstep : ∀ i is s, I (i :: is) s → Gives ok (f i) (fun _ t => I is t) s)
    (hend : ∀ s, I [] s → P s) :
    ∀ {is : List ι} {s : σ}, I is s → Gives ok (forEach is f) (fun _ t => P t) s
  | [], s, h => (gives_pure _).2 (hend s h)
  | i :: is, s, h => by
      rw [forEach, gives_bind]
      exact gives_mono (hstep i is s h) fun _ t ht => gives_forEach I hstep hend ht

end Gives

-- `apply` must not compute what a call does
attribute [irreducible] wp

end Os161.Lib.Calls

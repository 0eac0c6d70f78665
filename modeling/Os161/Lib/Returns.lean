import Os161.Lib.Program

set_option autoImplicit false

/-!
# Programs that return

`Returns m s Q`: the program `m`, started in `s`, does return, and `Q` holds of its value and of the
state after it. The rules take a composed program apart as those for `Runs` do, but from the first
part to the last, so that the state after a part need not be guessed.
-/

namespace Os161.Lib.Program

variable {σ ε α β ι : Type} {m : Prog σ ε α} {s t : σ} {Q Q' : α → σ → Prop}

/-- `m` returns a value, and `Q` holds of the value and the state. -/
def Returns (m : Prog σ ε α) (s : σ) (Q : α → σ → Prop) : Prop :=
  ∃ a t, Runs m s a t ∧ Q a t

@[simp] theorem returns_pure (a : α) : Returns (pure a : Prog σ ε α) s Q ↔ Q a s := by
  simp [Returns]

@[simp] theorem returns_get {Q : σ → σ → Prop} :
    Returns (get : Prog σ ε σ) s Q ↔ Q s s := by
  simp [Returns]

@[simp] theorem returns_modify (f : σ → σ) {Q : Unit → σ → Prop} :
    Returns (modify f : Prog σ ε Unit) s Q ↔ Q () (f s) := by
  constructor
  · rintro ⟨u, t, h, hQ⟩
    rw [runs_modify] at h
    rwa [h] at hQ
  · exact fun hQ => ⟨(), f s, (runs_modify _ _ _ _).2 rfl, hQ⟩

@[simp] theorem returns_bind (f : α → Prog σ ε β) {Q : β → σ → Prop} :
    Returns (m >>= f) s Q ↔ Returns m s fun a t => Returns (f a) t Q := by
  constructor
  · rintro ⟨b, u, h, hQ⟩
    obtain ⟨a, t, hm, hf⟩ := (runs_bind _ _ _ _ _).1 h
    exact ⟨a, t, hm, b, u, hf, hQ⟩
  · rintro ⟨a, t, hm, b, u, hf, hQ⟩
    exact ⟨b, u, (runs_bind _ _ _ _ _).2 ⟨a, t, hm, hf⟩, hQ⟩

theorem returns_mono (h : Returns m s Q) (hQ : ∀ a t, Q a t → Q' a t) : Returns m s Q' := by
  obtain ⟨a, t, hm, h⟩ := h
  exact ⟨a, t, hm, hQ a t h⟩

/-- What is known about the run is known about every run. -/
theorem Returns.of_runs {a : α} (h : Returns m s Q) (hm : Runs m s a t) : Q a t := by
  obtain ⟨b, u, hb, hQ⟩ := h
  obtain ⟨rfl, rfl⟩ := hm.det hb
  exact hQ

/-- Loop rule. The invariant may speak about the indices that are still to be visited. -/
theorem returns_forEach {b : ι → Prog σ ε Unit} (I : List ι → σ → Prop)
    (hb : ∀ i is s, I (i :: is) s → Returns (b i) s fun _ t => I is t) :
    ∀ (l : List ι) {s : σ}, I l s → Returns (forEach b l) s fun _ t => I [] t
  | [], _, hs => (returns_pure _).2 hs
  | i :: is, s, hs => (returns_bind _).2 <|
      returns_mono (hb i is s hs) fun _ _ ht => returns_forEach I hb is ht

end Os161.Lib.Program

import Os161.Lib.Monitor

set_option autoImplicit false

/-!
# Critical sections are atomic

For clients with one lock whose threads never wait on a queue: whenever the lock is free, the
shared data are what a sequence of whole critical sections leads to, one after the other, in
whatever way the threads have been interleaved (`reach_sections`).
-/

namespace Os161.Lib.Monitor

open Os161.Lib.Runs

variable {τ C σ κ : Type}

/-- Threads that use the shared data only with the lock, and only lock and unlock it. -/
structure LockOnly (P : Client τ Unit C σ κ) : Prop where
  outside : ∀ t k k' x x', P.owns k () = false → P.runs t k x k' x' → x' = x
  wait : ∀ k c k', ¬ P.calls k (.wait c ()) k'
  signal : ∀ k c k', ¬ P.calls k (.signal c ()) k'
  broadcast : ∀ k c k', ¬ P.calls k (.broadcast c ()) k'

/-- Steps between two calls. -/
inductive Within (P : Client τ Unit C σ κ) (k : κ) (x : σ) : κ → σ → Prop where
  | refl : Within P k x k x
  | tail {k' k'' : κ} {x' x'' : σ} {t : τ} : Within P k x k' x' → P.runs t k' x' k'' x'' →
      Within P k x k'' x''

/-- A whole critical section, which a thread at `k` enters. -/
def Section (P : Client τ Unit C σ κ) (x : σ) (k : κ) (x' : σ) : Prop :=
  ∃ t t' k₁ k₂ k' y, P.calls k (.acquire ()) k₁ ∧
    Within P k₁ (P.effect t k (.acquire ()) x) k₂ y ∧ P.calls k₂ (.release ()) k' ∧
    x' = P.effect t' k₂ (.release ()) y

/-- In the middle of a critical section, after whole ones. -/
def Inside (P : Client τ Unit C σ κ) (x₀ : σ) (k : κ) (x : σ) : Prop :=
  ∃ y t k₀ k₁, Reach (Section P) anyStep x₀ y ∧ P.calls k₀ (.acquire ()) k₁ ∧
    Within P k₁ (P.effect t k₀ (.acquire ()) y) k x

variable {P : Client τ Unit C σ κ}

/-- The data are the result of whole critical sections when the lock is free. -/
theorem LockOnly.guarded (h : LockOnly P) (x₀ : σ) :
    Guarded P (Reach (Section P) anyStep x₀) (Inside P x₀) where
  inside t k k' x x' _ hD hr := by
    obtain ⟨y, u, k₀, k₁, hy, hcall, hwithin⟩ := hD
    exact ⟨y, u, k₀, k₁, hy, hcall, hwithin.tail hr⟩
  outside := h.outside
  acquire t k k' x hcall hF := ⟨x, t, k, k', hF, hcall, .refl⟩
  release t k k' x hcall hD := by
    obtain ⟨y, u, k₀, k₁, hy, hentry, hwithin⟩ := hD
    exact hy.tail trivial ⟨u, t, k₁, k, k', x, hentry, hwithin, hcall, rfl⟩
  wait t c k k' x hcall := absurd hcall (h.wait k c k')
  resume c k k' x hcall := absurd hcall (h.wait k c k')
  signal t c k k' x hcall := absurd hcall (h.signal k c k')
  broadcast t c k k' x hcall := absurd hcall (h.broadcast k c k')

variable [DecidableEq τ] [DecidableEq C]

/-- Run lemma. -/
theorem reach_sections (h : LockOnly P) {ok : State τ Unit C σ κ → τ → Prop} {x : σ}
    {s : State τ Unit C σ κ} (hr : Reach (Step P) ok (P.init x) s) (hfree : s.holder () = none) :
    Reach (Section P) anyStep x s.shared :=
  ((h.guarded x).consistent .refl hr).free hfree

end Os161.Lib.Monitor

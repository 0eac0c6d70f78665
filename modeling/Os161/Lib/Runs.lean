import Mathlib.Algebra.Order.Ring.Int
import Mathlib.Logic.Relation
import Mathlib.Tactic.Common

set_option autoImplicit false

/-!
# Guarded runs and waits-for cycles

`Reach step ok s t`: a finite run of a labelled transition system from `s` to `t` in which every
step, seen from the state before it, satisfies the guard `ok`. A property of the start that every
guarded step keeps holds in every state of such a run (`Reach.invariant`). Where the steps can be
computed, `runAll` and `runChecked` compute such runs.

For systems of agents that wait for each other, `TwoPhase` is a criterion that rules out a cycle
in the waits-for relation: some agents (the climbing ones) wait only for climbing agents of higher
rank, and the others wait for agents of lower rank.
-/

namespace Os161.Lib.Runs

variable {σ ι : Type}

/-- Finite runs whose steps all satisfy `ok` in the state they start from. -/
inductive Reach (step : σ → ι → σ → Prop) (ok : σ → ι → Prop) (s : σ) : σ → Prop where
  | refl : Reach step ok s s
  | tail {t u : σ} {a : ι} : Reach step ok s t → ok t a → step t a u → Reach step ok s u

/-- The guard that every step satisfies: `Reach step anyStep` is plain reachability. -/
def anyStep (_ : σ) (_ : ι) : Prop := True

/-- Invariant rule. -/
theorem Reach.invariant {step : σ → ι → σ → Prop} {ok : σ → ι → Prop} {I : σ → Prop}
    (hstep : ∀ t a u, I t → ok t a → step t a u → I u) {s t : σ} (h : Reach step ok s t)
    (hs : I s) : I t := by
  induction h with
  | refl => exact hs
  | tail _ hok hst ih => exact hstep _ _ _ ih hok hst

/-- A run stays a run under a weaker guard. -/
theorem Reach.mono {step : σ → ι → σ → Prop} {ok ok' : σ → ι → Prop}
    (hok : ∀ t a, ok t a → ok' t a) {s t : σ} (h : Reach step ok s t) : Reach step ok' s t := by
  induction h with
  | refl => exact .refl
  | tail _ ha hst ih => exact .tail ih (hok _ _ ha) hst

/-- The run without steps from a state that has been reached. -/
theorem Reach.here {step : σ → ι → σ → Prop} {ok : σ → ι → Prop} {s t : σ}
    (_ : Reach step ok s t) (ok' : σ → ι → Prop) : Reach step ok' t t :=
  .refl

/-- Runs compose. -/
theorem Reach.trans {step : σ → ι → σ → Prop} {ok : σ → ι → Prop} {s t u : σ}
    (h : Reach step ok s t) (h' : Reach step ok t u) : Reach step ok s u := by
  induction h' with
  | refl => exact h
  | tail _ ha hst ih => exact .tail ih ha hst

section Computed

variable {exec : σ → ι → Option σ} {step : σ → ι → σ → Prop}

/-- The run of a list of labels, for steps that are computed. -/
def runAll (exec : σ → ι → Option σ) (s : σ) : List ι → Option σ
  | [] => some s
  | a :: as => (exec s a).bind fun t => runAll exec t as

/-- The same, for labels that pass a test in the state before them. -/
def runChecked (exec : σ → ι → Option σ) (check : σ → ι → Bool) (s : σ) : List ι → Option σ
  | [] => some s
  | a :: as => if check s a then (exec s a).bind fun t => runChecked exec check t as else none

theorem reach_of_runAll (hexec : ∀ s a t, exec s a = some t → step s a t) :
    ∀ (as : List ι) {s₀ s t : σ}, Reach step anyStep s₀ s → runAll exec s as = some t →
      Reach step anyStep s₀ t
  | [], s₀, s, t, hs, h => by
      cases h
      exact hs
  | a :: as, s₀, s, t, hs, h => by
      obtain ⟨u, hu, h⟩ := Option.bind_eq_some_iff.1 h
      exact reach_of_runAll hexec as (hs.tail trivial (hexec s a u hu)) h

theorem reach_of_runChecked {ok : σ → ι → Prop} {check : σ → ι → Bool} {s₀ : σ}
    (hexec : ∀ s a t, exec s a = some t → step s a t)
    (hcheck : ∀ s a, Reach step ok s₀ s → check s a = true → ok s a) :
    ∀ (as : List ι) {s t : σ}, Reach step ok s₀ s → runChecked exec check s as = some t →
      Reach step ok s₀ t
  | [], s, t, hs, h => by
      cases h
      exact hs
  | a :: as, s, t, hs, h => by
      unfold runChecked at h
      split_ifs at h with hc
      obtain ⟨u, hu, h⟩ := Option.bind_eq_some_iff.1 h
      exact reach_of_runChecked hexec hcheck as (hs.tail (hcheck s a hs hc) (hexec s a u hu)) h

end Computed

section WaitsFor

variable {α : Type}

/-- Waits-for criterion: a climbing agent waits only for climbing agents of higher rank, every
other agent waits for an agent of lower rank. -/
structure TwoPhase (waits : α → α → Prop) (climbing : α → Prop) (rank : α → Int) : Prop where
  up : ∀ a b, waits a b → climbing a → climbing b ∧ rank a < rank b
  down : ∀ a b, waits a b → ¬ climbing a → rank b < rank a

theorem TwoPhase.lt_of_climbing {waits : α → α → Prop} {climbing : α → Prop} {rank : α → Int}
    (h : TwoPhase waits climbing rank) {a b : α} (hab : Relation.TransGen waits a b)
    (ha : climbing a) : climbing b ∧ rank a < rank b := by
  induction hab with
  | single hw => exact h.up _ _ hw ha
  | tail _ hw ih =>
      obtain ⟨hb, hlt⟩ := ih
      obtain ⟨hc, hlt'⟩ := h.up _ _ hw hb
      exact ⟨hc, lt_trans hlt hlt'⟩

theorem TwoPhase.gt_of_not_climbing {waits : α → α → Prop} {climbing : α → Prop} {rank : α → Int}
    (h : TwoPhase waits climbing rank) {a b : α} (hab : Relation.TransGen waits a b)
    (hb : ¬ climbing b) : rank b < rank a := by
  -- an agent that is not climbing is reached only from agents that are not climbing either
  induction hab using Relation.TransGen.head_induction_on with
  | single hw =>
      refine h.down _ _ hw fun ha => hb (h.up _ _ hw ha).1
  | head hw hcb ih =>
      have hc : ¬ climbing _ := fun hc => hb (h.lt_of_climbing hcb hc).1
      have ha : ¬ climbing _ := fun ha => hc (h.up _ _ hw ha).1
      exact lt_trans ih (h.down _ _ hw ha)

/-- Under the criterion nobody waits, through others, for itself. -/
theorem TwoPhase.acyclic {waits : α → α → Prop} {climbing : α → Prop} {rank : α → Int}
    (h : TwoPhase waits climbing rank) (a : α) : ¬ Relation.TransGen waits a a := by
  intro haa
  by_cases ha : climbing a
  · exact lt_irrefl _ (h.lt_of_climbing haa ha).2
  · exact lt_irrefl _ (h.gt_of_not_climbing haa ha)

/-- Every agent of a cycle waits for somebody, so the waits for agents that wait themselves already
make the cycle. -/
theorem transGen_blocked {waits : α → α → Prop} {a b : α} (h : Relation.TransGen waits a b)
    (hb : ∃ c, waits b c) : Relation.TransGen (fun x y => waits x y ∧ ∃ c, waits y c) a b := by
  induction h using Relation.TransGen.head_induction_on with
  | single hw => exact .single ⟨hw, hb⟩
  | head hw hcb ih =>
      obtain ⟨d, hd, -⟩ := Relation.TransGen.head'_iff.1 hcb
      exact .head ⟨hw, d, hd⟩ ih

/-- It is enough to look at waits for agents that wait themselves. -/
theorem TwoPhase.acyclic_of_blocked {waits : α → α → Prop} {climbing : α → Prop} {rank : α → Int}
    (h : TwoPhase (fun x y => waits x y ∧ ∃ c, waits y c) climbing rank) (a : α) :
    ¬ Relation.TransGen waits a a := by
  intro haa
  obtain ⟨b, hab, -⟩ := Relation.TransGen.head'_iff.1 haa
  exact h.acyclic a (transGen_blocked haa ⟨b, hab⟩)

end WaitsFor

end Os161.Lib.Runs

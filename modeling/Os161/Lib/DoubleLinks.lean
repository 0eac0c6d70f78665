import Mathlib.Data.List.Chain
import Mathlib.Logic.Function.Basic
import Mathlib.Tactic.Common

set_option autoImplicit false

/-!
# Doubly linked lists

Nodes with a link to the next and a link to the previous node. Two nodes are `Joined` when each
leads to the other, and a list of nodes is `Chained` when its neighbours are. The rules say how a
chain grows when a node is put between two others (`Spliced`), how it shrinks when a node is taken
out (`Bridged`), and that it stays what it was when other nodes change.
-/

namespace Os161.Lib.DoubleLinks

variable {ν : Type}

/-- The links of all nodes. -/
structure Links (ν : Type) where
  next : ν → Option ν
  prev : ν → Option ν

variable {k k' : Links ν} {a b x : ν} {l l₁ l₂ : List ν}

def Links.Joined (k : Links ν) (a b : ν) : Prop := k.next a = some b ∧ k.prev b = some a

def Links.Chained (k : Links ν) (l : List ν) : Prop := l.IsChain k.Joined

theorem Links.chained_append_cons_cons :
    k.Chained (l₁ ++ a :: b :: l₂) ↔
      k.Chained (l₁ ++ [a]) ∧ k.Joined a b ∧ k.Chained (b :: l₂) :=
  List.isChain_append_cons_cons

theorem Links.chained_cons_cons : k.Chained (a :: b :: l) ↔ k.Joined a b ∧ k.Chained (b :: l) :=
  List.isChain_cons_cons

/-! ## What the links of other nodes do not matter for -/

/-- The link of the last node to the next one is not part of the chain. -/
theorem Links.Chained.congr_concat (h : k.Chained (l ++ [a]))
    (hnext : ∀ n ∈ l, k'.next n = k.next n) (hprev : ∀ n ∈ l ++ [a], k'.prev n = k.prev n) :
    k'.Chained (l ++ [a]) := by
  induction l with
  | nil => exact List.isChain_singleton a
  | cons b l ih =>
      have hih := ih (List.IsChain.tail h) (fun n hn => hnext n (List.mem_cons_of_mem b hn))
        fun n hn => hprev n (List.mem_cons_of_mem b hn)
      -- the node behind `b` is the first of `l`, or `a`
      cases l with
      | nil =>
          obtain ⟨hn, hp⟩ := List.isChain_pair.1 h
          refine List.isChain_pair.2 ⟨?_, ?_⟩
          · rw [hnext b List.mem_cons_self, hn]
          · rw [hprev a (by simp), hp]
      | cons c l =>
          obtain ⟨⟨hn, hp⟩, -⟩ := Links.chained_cons_cons.1 h
          refine Links.chained_cons_cons.2 ⟨⟨?_, ?_⟩, hih⟩
          · rw [hnext b List.mem_cons_self, hn]
          · rw [hprev c (by simp), hp]

/-- The link of the first node to the previous one is not part of the chain. -/
theorem Links.Chained.congr_cons (h : k.Chained (b :: l))
    (hnext : ∀ n ∈ b :: l, k'.next n = k.next n) (hprev : ∀ n ∈ l, k'.prev n = k.prev n) :
    k'.Chained (b :: l) := by
  induction l generalizing b with
  | nil => exact List.isChain_singleton b
  | cons c l ih =>
      obtain ⟨⟨hn, hp⟩, hl⟩ := Links.chained_cons_cons.1 h
      refine Links.chained_cons_cons.2 ⟨⟨?_, ?_⟩, ?_⟩
      · rw [hnext b List.mem_cons_self, hn]
      · rw [hprev c List.mem_cons_self, hp]
      · exact ih hl (fun n hn => hnext n (List.mem_cons_of_mem b hn))
          fun n hn => hprev n (List.mem_cons_of_mem c hn)

/-- A chain none of whose nodes changes. -/
theorem Links.Chained.congr (h : k.Chained l) (hnext : ∀ n ∈ l, k'.next n = k.next n)
    (hprev : ∀ n ∈ l, k'.prev n = k.prev n) : k'.Chained l := by
  cases l with
  | nil => exact List.isChain_nil
  | cons b l => exact h.congr_cons hnext fun n hn => hprev n (List.mem_cons_of_mem b hn)

/-! ## Putting a node in and taking it out -/

/-- From `k` to `k'` the node `x` was put between `a` and `b`. -/
structure Spliced (k k' : Links ν) (a x b : ν) : Prop where
  before : k'.Joined a x
  behind : k'.Joined x b
  next : ∀ n, n ≠ a → n ≠ x → k'.next n = k.next n
  prev : ∀ n, n ≠ b → n ≠ x → k'.prev n = k.prev n

/-- From `k` to `k'` the node `x` between `a` and `b` was taken out. -/
structure Bridged (k k' : Links ν) (a x b : ν) : Prop where
  joined : k'.Joined a b
  alone : k'.next x = none ∧ k'.prev x = none
  next : ∀ n, n ≠ a → n ≠ x → k'.next n = k.next n
  prev : ∀ n, n ≠ b → n ≠ x → k'.prev n = k.prev n

/-- The two ends of a chain do not see a change between them. -/
theorem Links.chained_ends (hleft : k.Chained (l₁ ++ [a])) (hright : k.Chained (b :: l₂))
    (hnodup : (l₁ ++ a :: b :: l₂).Nodup) (hx : x ∉ l₁ ++ a :: b :: l₂)
    (hnext : ∀ n, n ≠ a → n ≠ x → k'.next n = k.next n)
    (hprev : ∀ n, n ≠ b → n ≠ x → k'.prev n = k.prev n) :
    k'.Chained (l₁ ++ [a]) ∧ k'.Chained (b :: l₂) := by
  obtain ⟨-, hnodup₂, hdisj⟩ := List.nodup_append.1 hnodup
  obtain ⟨ha, hb, -⟩ : a ∉ b :: l₂ ∧ b ∉ l₂ ∧ l₂.Nodup := by
    simpa only [List.nodup_cons] using hnodup₂
  have hxne : ∀ n ∈ l₁ ++ a :: b :: l₂, n ≠ x := fun n hn e => hx (e ▸ hn)
  constructor
  · refine hleft.congr_concat (fun n hn => ?_) fun n hn => ?_
    · exact hnext n (hdisj n hn a List.mem_cons_self) (hxne n (List.mem_append_left _ hn))
    · refine hprev n ?_ (hxne n ?_)
      · rintro rfl
        rcases List.mem_append.1 hn with hn | hn
        · exact hdisj n hn n (by simp) rfl
        · exact ha (by simp [List.mem_singleton.1 hn])
      · rcases List.mem_append.1 hn with hn | hn
        · exact List.mem_append_left _ hn
        · simp [List.mem_singleton.1 hn]
  · refine hright.congr_cons (fun n hn => ?_) fun n hn => ?_
    · refine hnext n (fun e => ha (e ▸ hn)) (hxne n ?_)
      exact List.mem_append_right _ (List.mem_cons_of_mem a hn)
    · refine hprev n (fun e => hb (e ▸ hn)) (hxne n ?_)
      exact List.mem_append_right _ (List.mem_cons_of_mem a (List.mem_cons_of_mem b hn))

theorem Spliced.chained (hk : Spliced k k' a x b) (h : k.Chained (l₁ ++ a :: b :: l₂))
    (hnodup : (l₁ ++ a :: b :: l₂).Nodup) (hx : x ∉ l₁ ++ a :: b :: l₂) :
    k'.Chained (l₁ ++ a :: x :: b :: l₂) := by
  obtain ⟨hleft, -, hright⟩ := Links.chained_append_cons_cons.1 h
  obtain ⟨hleft, hright⟩ := Links.chained_ends hleft hright hnodup hx hk.next hk.prev
  refine Links.chained_append_cons_cons.2 ⟨hleft, hk.before, ?_⟩
  exact Links.chained_cons_cons.2 ⟨hk.behind, hright⟩

theorem Bridged.chained (hk : Bridged k k' a x b) (h : k.Chained (l₁ ++ a :: x :: b :: l₂))
    (hnodup : (l₁ ++ a :: x :: b :: l₂).Nodup) : k'.Chained (l₁ ++ a :: b :: l₂) := by
  obtain ⟨hleft, -, hright⟩ := Links.chained_append_cons_cons.1 h
  obtain ⟨-, hright⟩ := Links.chained_cons_cons.1 hright
  have hperm : (l₁ ++ a :: x :: b :: l₂).Perm (x :: (l₁ ++ a :: b :: l₂)) := by
    have e : l₁ ++ a :: x :: b :: l₂ = (l₁ ++ [a]) ++ x :: (b :: l₂) := by simp
    rw [e]
    refine List.perm_middle.trans ?_
    simp
  obtain ⟨hx, hnodup⟩ := List.nodup_cons.1 (hperm.nodup_iff.1 hnodup)
  obtain ⟨hleft, hright⟩ := Links.chained_ends hleft hright hnodup hx hk.next hk.prev
  exact Links.chained_append_cons_cons.2 ⟨hleft, hk.joined, hright⟩

end Os161.Lib.DoubleLinks

import Mathlib.Algebra.Group.Nat.Defs
import Mathlib.Data.Fintype.Card
import Os161.Thread.Threadlist

set_option autoImplicit false

/-!
# Thread lists as sequences

`Deques` says what thread lists are for: every list is a sequence of threads, and no thread is on
two of them. `Deques.Step` is what each function does to the sequences. A memory `Represents` the
sequences when the nodes of every list are chained in the order of the sequence; every function
does to the memory what its step does to the sequences.
-/

namespace Os161.Threadlist

open Os161.Lib.Calls
open Os161.Lib.DoubleLinks

/-- The initialised lists and threads. A thread that is on a list has been initialised, and is on
no other list and only once on this one. -/
structure Deques where
  lists : Pointer → Option (List Pointer)
  ready : Pointer → Prop
  listed : ∀ {tl l t}, lists tl = some l → t ∈ l → ready t
  nodup : ∀ {tl l}, lists tl = some l → l.Nodup
  once : ∀ {tl tl' l l' t}, lists tl = some l → lists tl' = some l' → t ∈ l → t ∈ l' → tl = tl'

namespace Deques

/-- The thread has been initialised and is on no list. -/
def Free (d : Deques) (t : Pointer) : Prop := d.ready t ∧ ∀ tl l, d.lists tl = some l → t ∉ l

/-- Nothing has been initialised. -/
def nothing : Deques where
  lists _ := none
  ready _ := False
  listed h _ := nomatch h
  nodup h := nomatch h
  once h _ _ _ := nomatch h

variable {tl t : Pointer} {l p q : List Pointer}

theorem of_update_none {α β : Type} [DecidableEq α] {f : α → Option β} {a b : α} {y : β}
    (h : Function.update f a none b = some y) : f b = some y := by
  by_cases e : b = a
  · subst e
    rw [Function.update_self] at h
    cases h
  · rwa [Function.update_of_ne e] at h

theorem of_update_some {α β : Type} [DecidableEq α] {f : α → Option β} {a b : α} {x y : β}
    (h : Function.update f a (some x) b = some y) : b = a ∧ y = x ∨ b ≠ a ∧ f b = some y := by
  by_cases e : b = a
  · subst e
    rw [Function.update_self] at h
    exact .inl ⟨rfl, (Option.some.inj h).symm⟩
  · rw [Function.update_of_ne e] at h
    exact .inr ⟨e, h⟩

/-- The list `tl` becomes `l`, with threads that were on it before or on no list. -/
def put (d : Deques) (tl : Pointer) (l : List Pointer) (hl : l.Nodup)
    (hold : ∀ t ∈ l, d.Free t ∨ ∃ l', d.lists tl = some l' ∧ t ∈ l') : Deques where
  lists := Function.update d.lists tl (some l)
  ready := d.ready
  listed := by
    intro tl' l' t hl' ht
    rcases of_update_some hl' with ⟨rfl, rfl⟩ | ⟨-, hl'⟩
    · rcases hold t ht with hfree | ⟨l', hl', ht⟩
      · exact hfree.1
      · exact d.listed hl' ht
    · exact d.listed hl' ht
  nodup := by
    intro tl' l' hl'
    rcases of_update_some hl' with ⟨rfl, rfl⟩ | ⟨-, hl'⟩
    · exact hl
    · exact d.nodup hl'
  once := by
    -- a thread of `l` is on no other list, since it was on none or on `tl`
    have hother : ∀ tl' l' t, tl' ≠ tl → d.lists tl' = some l' → t ∈ l → t ∉ l' := by
      intro tl' l' t hne hl' ht ht'
      rcases hold t ht with hfree | ⟨l'', hl'', ht''⟩
      · exact hfree.2 tl' l' hl' ht'
      · exact hne (d.once hl' hl'' ht' ht'')
    intro tl₁ tl₂ p q t h₁ h₂ ht₁ ht₂
    rcases of_update_some h₁ with ⟨rfl, rfl⟩ | ⟨hne₁, hold₁⟩ <;>
      rcases of_update_some h₂ with ⟨e, rfl⟩ | ⟨hne₂, hold₂⟩
    · exact e.symm
    · exact (hother tl₂ q t hne₂ hold₂ ht₁ ht₂).elim
    · subst e
      exact (hother tl₁ p t hne₁ hold₁ ht₂ ht₁).elim
    · exact d.once hold₁ hold₂ ht₁ ht₂

theorem free_put {d : Deques} {u : Pointer} {hl : l.Nodup}
    {hold : ∀ t ∈ l, d.Free t ∨ ∃ l', d.lists tl = some l' ∧ t ∈ l'}
    (h : (d.put tl l hl hold).Free u) :
    d.ready u ∧ u ∉ l ∧ ∀ tl' l', tl' ≠ tl → d.lists tl' = some l' → u ∉ l' := by
  refine ⟨h.1, h.2 tl l (Function.update_self tl _ _), fun tl' l' hne hl' => h.2 tl' l' ?_⟩
  exact (Function.update_of_ne hne _ _).trans hl'

/-- The free thread `t` is put between `p` and `q`. -/
def insert (d : Deques) (h : d.lists tl = some (p ++ q)) (hfree : d.Free t) : Deques :=
  d.put tl (p ++ t :: q)
    (List.nodup_middle.2 (List.nodup_cons.2 ⟨hfree.2 tl _ h, d.nodup h⟩))
    (by
      intro u hu
      rcases List.mem_cons.1 (List.perm_middle.mem_iff.1 hu) with rfl | hu
      · exact .inl hfree
      · exact .inr ⟨_, h, hu⟩)

/-- The thread `t` is taken off its list. -/
def erase (d : Deques) (h : d.lists tl = some (p ++ t :: q)) : Deques :=
  d.put tl (p ++ q)
    (List.nodup_cons.1 (List.nodup_middle.1 (d.nodup h))).2
    (fun _ hu => .inr ⟨_, h, List.perm_middle.mem_iff.2 (List.mem_cons_of_mem t hu)⟩)

/-- `tl` becomes an empty list. -/
def openList (d : Deques) (tl : Pointer) : Deques :=
  d.put tl [] List.nodup_nil (fun _ h => nomatch h)

/-- `tl` is no list any more. -/
def closeList (d : Deques) (tl : Pointer) : Deques where
  lists := Function.update d.lists tl none
  ready := d.ready
  listed h := d.listed (of_update_none h)
  nodup h := d.nodup (of_update_none h)
  once h h' := d.once (of_update_none h) (of_update_none h')

def openThread (d : Deques) (t : Pointer) : Deques :=
  { d with
    ready := fun u => u = t ∨ d.ready u
    listed := fun h hu => .inr (d.listed h hu) }

def closeThread (d : Deques) (h : d.Free t) : Deques :=
  { d with
    ready := fun u => u ≠ t ∧ d.ready u
    listed := fun {tl l _} hl hu => ⟨fun e => h.2 tl l hl (e ▸ hu), d.listed hl hu⟩ }

@[simp] theorem lists_openList (d : Deques) (tl : Pointer) :
    (d.openList tl).lists = Function.update d.lists tl (some []) := rfl

@[simp] theorem lists_openThread (d : Deques) (t : Pointer) :
    (d.openThread t).lists = d.lists := rfl

theorem ready_openThread (d : Deques) (t : Pointer) : (d.openThread t).ready t := .inl rfl

@[simp] theorem lists_insert (d : Deques) (h : d.lists tl = some (p ++ q)) (hfree : d.Free t) :
    (d.insert h hfree).lists = Function.update d.lists tl (some (p ++ t :: q)) := rfl

@[simp] theorem lists_erase (d : Deques) (h : d.lists tl = some (p ++ t :: q)) :
    (d.erase h).lists = Function.update d.lists tl (some (p ++ q)) := rfl

/-- What a call may be made for and what it does: `Step d op r d'` leads from `d` to `d'` and
returns `r`. A list is initialised when it is none or empty, a thread when it is on no list. -/
inductive Step : Deques → Op → Option Pointer → Deques → Prop where
  | init {d : Deques} {tl : Pointer} (h : ∀ l, d.lists tl = some l → l = []) :
      Step d (.init tl) none (d.openList tl)
  | cleanup {d : Deques} {tl : Pointer} (h : d.lists tl = some []) :
      Step d (.cleanup tl) none (d.closeList tl)
  | nodeInit {d : Deques} {t : Pointer} (h : ∀ tl l, d.lists tl = some l → t ∉ l) :
      Step d (.nodeInit t) none (d.openThread t)
  | nodeCleanup {d : Deques} {t : Pointer} (h : d.Free t) :
      Step d (.nodeCleanup t) none (d.closeThread h)
  | addhead {d : Deques} {tl t : Pointer} {l : List Pointer} (h : d.lists tl = some ([] ++ l))
      (hfree : d.Free t) : Step d (.addhead tl t) none (d.insert h hfree)
  | addtail {d : Deques} {tl t : Pointer} {l : List Pointer} (h : d.lists tl = some (l ++ []))
      (hfree : d.Free t) : Step d (.addtail tl t) none (d.insert h hfree)
  | insertafter {d : Deques} {tl onlist addee : Pointer} {p q : List Pointer}
      (h : d.lists tl = some ((p ++ [onlist]) ++ q)) (hfree : d.Free addee) :
      Step d (.insertafter tl onlist addee) none (d.insert h hfree)
  | insertbefore {d : Deques} {tl addee onlist : Pointer} {p q : List Pointer}
      (h : d.lists tl = some (p ++ onlist :: q)) (hfree : d.Free addee) :
      Step d (.insertbefore tl addee onlist) none (d.insert h hfree)
  | remheadEmpty {d : Deques} {tl : Pointer} (h : d.lists tl = some []) :
      Step d (.remhead tl) none d
  | remhead {d : Deques} {tl t : Pointer} {l : List Pointer}
      (h : d.lists tl = some ([] ++ t :: l)) : Step d (.remhead tl) (some t) (d.erase h)
  | remtailEmpty {d : Deques} {tl : Pointer} (h : d.lists tl = some []) :
      Step d (.remtail tl) none d
  | remtail {d : Deques} {tl t : Pointer} {l : List Pointer}
      (h : d.lists tl = some (l ++ t :: [])) : Step d (.remtail tl) (some t) (d.erase h)
  | remove {d : Deques} {tl t : Pointer} {p q : List Pointer}
      (h : d.lists tl = some (p ++ t :: q)) : Step d (.remove tl t) none (d.erase h)

/-- One call after the other. -/
inductive Run : Deques → List Op → List (Option Pointer) → Deques → Prop where
  | nil {d : Deques} : Run d [] [] d
  | cons {d d' d'' : Deques} {op : Op} {ops : List Op} {r : Option Pointer}
      {rs : List (Option Pointer)} :
      Step d op r d' → Run d' ops rs d'' → Run d (op :: ops) (r :: rs) d''

end Deques

/-! ## The memory of the lists -/

/-- The nodes of a list with the threads `l`. -/
def nodes (tl : Pointer) (l : List Pointer) : List Node :=
  .tlHead tl :: (l.map .tListnode ++ [.tlTail tl])

/-- The last node before the tail, when the threads are `l`. -/
def lastNode (tl : Pointer) (l : List Pointer) : Node :=
  match l.getLast? with
  | some t => .tListnode t
  | none => .tlHead tl

/-- The first node behind the head, when the threads are `l`. -/
def firstNode (tl : Pointer) (l : List Pointer) : Node :=
  match l.head? with
  | some t => .tListnode t
  | none => .tlTail tl

/-- The memory holds the lists. -/
structure Represents (m : Memory) (d : Deques) : Prop where
  chained : ∀ {tl l}, d.lists tl = some l → m.Chained (nodes tl l)
  head : ∀ {tl l}, d.lists tl = some l → m.prev (.tlHead tl) = none ∧ m.tlnSelf (.tlHead tl) = none
  tail : ∀ {tl l}, d.lists tl = some l → m.next (.tlTail tl) = none ∧ m.tlnSelf (.tlTail tl) = none
  self : ∀ {t}, d.ready t → m.tlnSelf (.tListnode t) = some t
  apart : ∀ {t}, d.Free t → m.next (.tListnode t) = none ∧ m.prev (.tListnode t) = none
  count : ∀ {tl l}, d.lists tl = some l → (m.tlCount tl).toNat = l.length

section Nodes

variable {tl tl' t u : Pointer} {l l' p q : List Pointer}

@[simp] theorem lastNode_nil : lastNode tl [] = .tlHead tl := rfl

@[simp] theorem lastNode_concat : lastNode tl (l ++ [t]) = .tListnode t := by
  rw [lastNode, List.getLast?_concat]

@[simp] theorem firstNode_nil : firstNode tl [] = .tlTail tl := rfl

@[simp] theorem firstNode_cons : firstNode tl (t :: l) = .tListnode t := rfl

theorem lastNode_cases (tl : Pointer) (l : List Pointer) :
    lastNode tl l = .tlHead tl ∨ ∃ t ∈ l, lastNode tl l = .tListnode t := by
  rcases List.eq_nil_or_concat l with rfl | ⟨l, t, rfl⟩
  · exact .inl rfl
  · exact .inr ⟨t, by simp, by simp⟩

theorem firstNode_cases (tl : Pointer) (l : List Pointer) :
    firstNode tl l = .tlTail tl ∨ ∃ t ∈ l, firstNode tl l = .tListnode t := by
  cases l with
  | nil => exact .inl rfl
  | cons t l => exact .inr ⟨t, List.mem_cons_self, rfl⟩

theorem lastNode_ne (hfree : t ∉ l) : lastNode tl l ≠ .tListnode t := by
  rcases lastNode_cases tl l with e | ⟨v, hv, e⟩ <;> rw [e] <;> intro e' <;> cases e'
  exact hfree hv

theorem firstNode_ne (hfree : t ∉ l) : firstNode tl l ≠ .tListnode t := by
  rcases firstNode_cases tl l with e | ⟨v, hv, e⟩ <;> rw [e] <;> intro e' <;> cases e'
  exact hfree hv

theorem nodes_split (tl : Pointer) (p q : List Pointer) : ∃ pre post, ∀ mid : List Pointer,
    nodes tl (p ++ mid ++ q) =
      pre ++ lastNode tl p :: (mid.map .tListnode ++ firstNode tl q :: post) := by
  have hleft : ∃ pre, .tlHead tl :: p.map Node.tListnode = pre ++ [lastNode tl p] := by
    rcases List.eq_nil_or_concat p with rfl | ⟨l, t, rfl⟩
    · exact ⟨[], rfl⟩
    · exact ⟨.tlHead tl :: l.map .tListnode, by simp⟩
  have hright : ∃ post, q.map Node.tListnode ++ [.tlTail tl] = firstNode tl q :: post := by
    cases q with
    | nil => exact ⟨[], rfl⟩
    | cons t l => exact ⟨l.map .tListnode ++ [.tlTail tl], rfl⟩
  obtain ⟨pre, hpre⟩ := hleft
  obtain ⟨post, hpost⟩ := hright
  refine ⟨pre, post, fun mid => ?_⟩
  calc nodes tl (p ++ mid ++ q)
      = (.tlHead tl :: p.map Node.tListnode) ++
          (mid.map .tListnode ++ (q.map .tListnode ++ [.tlTail tl])) := by simp [nodes]
    _ = _ := by rw [hpre, hpost]; simp

theorem mem_nodes {n : Node} :
    n ∈ nodes tl l ↔ n = .tlHead tl ∨ n = .tlTail tl ∨ ∃ t ∈ l, n = .tListnode t := by
  simp only [nodes, List.mem_cons, List.mem_append, List.mem_map, List.not_mem_nil, or_false]
  constructor
  · rintro (h | ⟨t, ht, rfl⟩ | h)
    · exact .inl h
    · exact .inr (.inr ⟨t, ht, rfl⟩)
    · exact .inr (.inl h)
  · rintro (h | h | ⟨t, ht, rfl⟩)
    · exact .inl h
    · exact .inr (.inr h)
    · exact .inr (.inl ⟨t, ht, rfl⟩)

theorem nodup_nodes (tl : Pointer) (h : l.Nodup) : (nodes tl l).Nodup := by
  have hmap : (l.map Node.tListnode).Nodup := by
    refine h.map fun t u e => ?_
    cases e
    rfl
  have hright : (l.map Node.tListnode ++ [Node.tlTail tl]).Nodup := by
    refine hmap.append (List.nodup_singleton _) fun n hn hn' => ?_
    obtain ⟨t, -, rfl⟩ := List.mem_map.1 hn
    cases List.mem_singleton.1 hn'
  exact List.nodup_cons.2 ⟨by simp, hright⟩

/-- There are fewer threads than addresses. -/
theorem length_lt (h : l.Nodup) : l.length < 2 ^ 32 := by
  have hmap : (0 :: l.map fun t => t.1.toBitVec.toFin).Nodup := by
    refine List.nodup_cons.2 ⟨fun h0 => ?_, h.map fun t u e => ?_⟩
    · obtain ⟨t, -, ht⟩ := List.mem_map.1 h0
      exact t.2 (UInt32.toBitVec_inj.1 (BitVec.toFin_inj.1 ht))
    · exact Subtype.ext (UInt32.toBitVec_inj.1 (BitVec.toFin_inj.1 e))
  have hle := hmap.length_le_card
  rw [Fintype.card_fin, List.length_cons, List.length_map] at hle
  exact hle

end Nodes

/-! ## The functions on the memory -/

section Specs

variable {ok : Panic → Prop} {m m' : Memory} {n a x b : Node} {tl t : Pointer}

theorem gives_kassert {c : Prop} [Decidable c] {P : Unit → Memory → Prop} (hc : c)
    (h : P () m) : Gives ok (kassert c) P m := by
  rw [kassert, if_pos hc]
  exact (gives_pure ()).2 h

theorem gives_deref {o : Option Node} {P : Node → Memory → Prop} (ho : o = some n) (h : P n m) :
    Gives ok (deref o) P m := by
  rw [ho]
  exact (gives_pure n).2 h

/-- The links change as `R` says, and nothing else. -/
structure Relinks (R : Links Node → Links Node → Prop) (m m' : Memory) : Prop where
  links : R m.toLinks m'.toLinks
  tlnSelf : m'.tlnSelf = m.tlnSelf
  tlCount : m'.tlCount = m.tlCount

/-- What the links are after a node was put between `a` and `b`. -/
theorem spliced_update {k : Links Node} (hax : a ≠ x) (hbx : b ≠ x) :
    Spliced k ⟨Function.update (Function.update k.next x (some b)) a (some x),
      Function.update (Function.update k.prev x (some a)) b (some x)⟩ a x b where
  before := by
    refine ⟨Function.update_self a _ _, ?_⟩
    dsimp only
    rw [Function.update_of_ne hbx.symm, Function.update_self]
  behind := by
    refine ⟨?_, Function.update_self b _ _⟩
    dsimp only
    rw [Function.update_of_ne hax.symm, Function.update_self]
  next n hna hnx := by
    dsimp only
    rw [Function.update_of_ne hna, Function.update_of_ne hnx]
  prev n hnb hnx := by
    dsimp only
    rw [Function.update_of_ne hnb, Function.update_of_ne hnx]

theorem gives_insertafternode (ha : m.next a = some b) (hax : a ≠ .tListnode t)
    (hbx : b ≠ .tListnode t) (hnext : m.next (.tListnode t) = none)
    (hprev : m.prev (.tListnode t) = none) :
    Gives ok (threadlistInsertafternode a t)
      (fun _ m' => Relinks (Spliced · · a (.tListnode t) b) m m') m := by
  simp only [threadlistInsertafternode, gives_bind, gives_get]
  refine gives_kassert hprev (gives_kassert hnext ?_)
  simp only [setPrev, setNext, gives_modify, ha]
  refine gives_deref (Function.update_self _ _ _) ?_
  refine gives_deref ?_ ⟨spliced_update hax hbx, rfl, rfl⟩
  exact (Function.update_of_ne hax.symm _ _).trans (Function.update_self _ _ _)

theorem gives_insertbeforenode (hb : m.prev b = some a) (hax : a ≠ .tListnode t)
    (hbx : b ≠ .tListnode t) (hnext : m.next (.tListnode t) = none)
    (hprev : m.prev (.tListnode t) = none) :
    Gives ok (threadlistInsertbeforenode t b)
      (fun _ m' => Relinks (Spliced · · a (.tListnode t) b) m m') m := by
  simp only [threadlistInsertbeforenode, gives_bind, gives_get]
  refine gives_kassert hprev (gives_kassert hnext ?_)
  simp only [setPrev, setNext, gives_modify, hb]
  refine gives_deref (Function.update_self _ _ _) ?_
  refine gives_deref ?_ ⟨spliced_update hax hbx, rfl, rfl⟩
  exact (Function.update_of_ne hax.symm _ _).trans (Function.update_self _ _ _)

/-- What the links are after the node `x` between `a` and `b` was taken out. -/
theorem bridged_update {k : Links Node} (hax : a ≠ x) (hbx : b ≠ x) :
    Bridged k ⟨Function.update (Function.update k.next a (some b)) x none,
      Function.update (Function.update k.prev b (some a)) x none⟩ a x b where
  joined := by
    refine ⟨?_, ?_⟩
    · dsimp only
      rw [Function.update_of_ne hax, Function.update_self]
    · dsimp only
      rw [Function.update_of_ne hbx, Function.update_self]
  alone := ⟨Function.update_self x _ _, Function.update_self x _ _⟩
  next n hna hnx := by
    dsimp only
    rw [Function.update_of_ne hnx, Function.update_of_ne hna]
  prev n hnb hnx := by
    dsimp only
    rw [Function.update_of_ne hnx, Function.update_of_ne hnb]

theorem gives_removenode (hp : m.prev x = some a) (hn : m.next x = some b) (hax : a ≠ x)
    (hbx : b ≠ x) :
    Gives ok (threadlistRemovenode x) (fun _ m' => Relinks (Bridged · · a x b) m m') m := by
  simp only [threadlistRemovenode, gives_bind, gives_get]
  refine gives_kassert (by simp [hp]) (gives_kassert (by simp [hn]) ?_)
  refine gives_deref hp ?_
  simp only [setNext, setPrev, gives_modify, hn]
  refine gives_deref ((Function.update_of_ne hax.symm _ _).trans hn) ?_
  dsimp only
  rw [hp]
  exact ⟨bridged_update hax hbx, rfl, rfl⟩

end Specs

/-! ## Every function does its step -/

section Steps

variable {ok : Panic → Prop} {m m' : Memory} {d : Deques} {n : Node} {tl tl' t : Pointer}
  {l l' p q : List Pointer}

/-- The nodes of another list. -/
theorem ne_of_mem_nodes (hl : d.lists tl = some l) (hl' : d.lists tl' = some l') (hne : tl' ≠ tl)
    (hn : n ∈ nodes tl' l') : n ∉ nodes tl l := by
  intro hn'
  rcases mem_nodes.1 hn with rfl | rfl | ⟨u, hu, rfl⟩ <;>
    rcases mem_nodes.1 hn' with e | e | ⟨v, hv, e⟩ <;> cases e
  · exact hne rfl
  · exact hne rfl
  · exact hne (d.once hl' hl hu hv)

/-- The memory after the list `tl` has become `l'`, and only the links of `t` and of the nodes
around it have changed. -/
theorem Represents.put {hl : l'.Nodup}
    {hold : ∀ u ∈ l', d.Free u ∨ ∃ l, d.lists tl = some l ∧ u ∈ l}
    (h : Represents m d) (hlist : d.lists tl = some l)
    (hsub : ∀ u, u ∈ p ∨ u ∈ q → u ∈ l ∧ u ∈ l')
    (hsup : ∀ u ∈ l, u = t ∨ u ∈ p ∨ u ∈ q)
    (ht : ∀ tl' l', tl' ≠ tl → d.lists tl' = some l' → t ∉ l')
    (hnext : ∀ n, n ≠ lastNode tl p → n ≠ .tListnode t → m'.next n = m.next n)
    (hprev : ∀ n, n ≠ firstNode tl q → n ≠ .tListnode t → m'.prev n = m.prev n)
    (hself : m'.tlnSelf = m.tlnSelf)
    (hcount : ∃ c, m'.tlCount = Function.update m.tlCount tl c ∧ c.toNat = l'.length)
    (hchain : m'.Chained (nodes tl l'))
    (hapart : t ∉ l' → m'.next (.tListnode t) = none ∧ m'.prev (.tListnode t) = none) :
    Represents m' (d.put tl l' hl hold) := by
  have hlastmem : lastNode tl p ∈ nodes tl l ∧ lastNode tl p ≠ .tlTail tl := by
    rcases lastNode_cases tl p with e | ⟨u, hu, e⟩
    · exact ⟨mem_nodes.2 (.inl e), by simp [e]⟩
    · exact ⟨mem_nodes.2 (.inr (.inr ⟨u, (hsub u (.inl hu)).1, e⟩)), by simp [e]⟩
  have hfirstmem : firstNode tl q ∈ nodes tl l ∧ firstNode tl q ≠ .tlHead tl := by
    rcases firstNode_cases tl q with e | ⟨u, hu, e⟩
    · exact ⟨mem_nodes.2 (.inr (.inl e)), by simp [e]⟩
    · exact ⟨mem_nodes.2 (.inr (.inr ⟨u, (hsub u (.inr hu)).1, e⟩)), by simp [e]⟩
  -- the nodes of the other lists keep their links
  have hothers : ∀ {tl' l'}, tl' ≠ tl → d.lists tl' = some l' → ∀ n ∈ nodes tl' l',
      m'.next n = m.next n ∧ m'.prev n = m.prev n := by
    intro tl' l' hne hl' n hn
    have hnot := ne_of_mem_nodes hlist hl' hne hn
    have hnt : n ≠ .tListnode t := by
      rintro rfl
      rcases mem_nodes.1 hn with e | e | ⟨u, hu, e⟩ <;> cases e
      exact ht tl' l' hne hl' hu
    refine ⟨hnext n (fun e => hnot ?_) hnt, hprev n (fun e => hnot ?_) hnt⟩
    · exact e ▸ hlastmem.1
    · exact e ▸ hfirstmem.1
  obtain ⟨c, hcount, hc⟩ := hcount
  constructor
  · intro tl' l' hl'
    rcases Deques.of_update_some hl' with ⟨rfl, rfl⟩ | ⟨hne, hl'⟩
    · exact hchain
    · exact (h.chained hl').congr (fun n hn => (hothers hne hl' n hn).1)
        fun n hn => (hothers hne hl' n hn).2
  · intro tl' l' hl'
    rcases Deques.of_update_some hl' with ⟨rfl, rfl⟩ | ⟨hne, hl'⟩
    · rw [hself, hprev _ hfirstmem.2.symm (by simp)]
      exact h.head hlist
    · rw [hself, (hothers hne hl' _ (mem_nodes.2 (.inl rfl))).2]
      exact h.head hl'
  · intro tl' l' hl'
    rcases Deques.of_update_some hl' with ⟨rfl, rfl⟩ | ⟨hne, hl'⟩
    · rw [hself, hnext _ hlastmem.2.symm (by simp)]
      exact h.tail hlist
    · rw [hself, (hothers hne hl' _ (mem_nodes.2 (.inr (.inl rfl)))).1]
      exact h.tail hl'
  · intro u hu
    rw [hself]
    exact h.self hu
  · intro u hu
    by_cases e : u = t
    · subst e
      exact hapart (Deques.free_put hu).2.1
    · obtain ⟨hready, hnot, hnone⟩ := Deques.free_put hu
      have hnot₁ : u ∉ p := fun hu => hnot (hsub u (.inl hu)).2
      have hnot₂ : u ∉ q := fun hu => hnot (hsub u (.inr hu)).2
      have hfree : d.Free u := by
        refine ⟨hready, fun tl' l' hl' hu => ?_⟩
        by_cases hne : tl' = tl
        · subst hne
          cases hlist.symm.trans hl'
          rcases hsup u hu with hu | hu | hu
          · exact e hu
          · exact hnot₁ hu
          · exact hnot₂ hu
        · exact hnone tl' l' hne hl' hu
      have hut : Node.tListnode u ≠ .tListnode t := by
        intro e'
        cases e'
        exact e rfl
      rw [hnext _ (lastNode_ne hnot₁).symm hut, hprev _ (firstNode_ne hnot₂).symm hut]
      exact h.apart hfree
  · intro tl' l' hl'
    rw [hcount]
    rcases Deques.of_update_some hl' with ⟨rfl, rfl⟩ | ⟨hne, hl'⟩
    · rw [Function.update_self]
      exact hc
    · rw [Function.update_of_ne hne]
      exact h.count hl'

/-- The two nodes between which a thread can be put. -/
theorem Represents.joined (h : Represents m d) (hlist : d.lists tl = some (p ++ q)) :
    m.Joined (lastNode tl p) (firstNode tl q) := by
  obtain ⟨pre, post, hsplit⟩ := nodes_split tl p q
  have hnodes := hsplit []
  rw [List.append_nil, List.map_nil, List.nil_append] at hnodes
  have hchain := h.chained hlist
  rw [hnodes] at hchain
  exact (Links.chained_append_cons_cons.1 hchain).2.1

/-- A node of a thread on the list and its neighbours. -/
theorem Represents.joined_listnode (h : Represents m d)
    (hlist : d.lists tl = some (p ++ t :: q)) :
    m.Joined (lastNode tl p) (.tListnode t) ∧ m.Joined (.tListnode t) (firstNode tl q) := by
  have hleft := h.joined hlist
  have hright := h.joined (p := p ++ [t]) (q := q) (by simpa using hlist)
  rw [lastNode_concat] at hright
  exact ⟨hleft, hright⟩

theorem toNat_add_one {c : UInt32} {k : Nat} (hc : c.toNat = k) (hk : k + 1 < 2 ^ 32) :
    (c + 1).toNat = k + 1 := by
  rw [UInt32.toNat_add, hc]
  exact Nat.mod_eq_of_lt hk

/-- `tl->tl_count++` completes an insertion. -/
theorem Represents.insert (h : Represents m d) (hlist : d.lists tl = some (p ++ q))
    (hfree : d.Free t)
    (hm : Relinks (Spliced · · (lastNode tl p) (.tListnode t) (firstNode tl q)) m m') :
    Gives ok (countUp tl) (fun _ m' => Represents m' (d.insert hlist hfree)) m' := by
  obtain ⟨hlinks, hself, hcount⟩ := hm
  simp only [countUp, setCount, gives_bind, gives_get, gives_modify]
  have hmem : ∀ u, u ∈ p ++ t :: q ↔ u = t ∨ u ∈ p ∨ u ∈ q := by
    intro u
    simp only [List.mem_append, List.mem_cons]
    tauto
  have hlength := length_lt (d.insert hlist hfree |>.nodup (Function.update_self tl _ _))
  have hsum : (p ++ t :: q).length = (p ++ q).length + 1 := by
    simp only [List.length_append, List.length_cons]
    omega
  obtain ⟨pre, post, hsplit⟩ := nodes_split tl p q
  refine h.put (p := p) (q := q) hlist (fun u hu => ⟨?_, ?_⟩) (fun u hu => ?_)
    (fun tl' l' _ hl' => hfree.2 tl' l' hl') hlinks.next hlinks.prev hself ?_ ?_
    (fun hnot => (hnot ((hmem t).2 (.inl rfl))).elim)
  · exact List.mem_append.2 hu
  · exact (hmem u).2 (.inr hu)
  · exact .inr (List.mem_append.1 hu)
  · refine ⟨m'.tlCount tl + 1, by rw [hcount], ?_⟩
    rw [hsum] at hlength ⊢
    refine toNat_add_one ?_ hlength
    rw [hcount]
    exact h.count hlist
  · have hold : nodes tl (p ++ q) = pre ++ lastNode tl p :: firstNode tl q :: post := by
      simpa using hsplit []
    have hnew : nodes tl (p ++ t :: q) =
        pre ++ lastNode tl p :: .tListnode t :: firstNode tl q :: post := by
      simpa using hsplit [t]
    have hchain := h.chained hlist
    have hnodup := nodup_nodes tl (d.nodup hlist)
    have hout : Node.tListnode t ∉ nodes tl (p ++ q) := by
      intro hn
      rcases mem_nodes.1 hn with e | e | ⟨u, hu, e⟩ <;> cases e
      exact hfree.2 tl _ hlist hu
    rw [hold] at hchain hnodup hout
    rw [hnew]
    exact hlinks.chained hchain hnodup hout

/-- `tl->tl_count--` completes a removal. -/
theorem Represents.erase (h : Represents m d) (hlist : d.lists tl = some (p ++ t :: q))
    (hm : Relinks (Bridged · · (lastNode tl p) (.tListnode t) (firstNode tl q)) m m') :
    Gives ok (countDown tl)
      (fun _ m' => Represents m' (d.erase hlist) ∧ m'.tlnSelf = m.tlnSelf) m' := by
  obtain ⟨hlinks, hself, hcount⟩ := hm
  simp only [countDown, setCount, gives_bind, gives_get, gives_modify]
  have hmem : ∀ u, u ∈ p ++ t :: q ↔ u = t ∨ u ∈ p ∨ u ∈ q := by
    intro u
    simp only [List.mem_append, List.mem_cons]
    tauto
  have hnodup := d.nodup hlist
  have hold : (m'.tlCount tl).toNat = (p ++ q).length + 1 := by
    rw [hcount, h.count hlist]
    simp only [List.length_append, List.length_cons]
    omega
  have hpos : m'.tlCount tl > 0 := by
    rw [gt_iff_lt, UInt32.lt_iff_toNat_lt, hold]
    exact Nat.succ_pos _
  refine gives_kassert hpos ⟨?_, hself⟩
  obtain ⟨pre, post, hsplit⟩ := nodes_split tl p q
  refine h.put (p := p) (q := q) hlist (fun u hu => ⟨?_, ?_⟩) (fun u hu => (hmem u).1 hu)
    (fun tl' l' hne hl' ht => hne ?_) hlinks.next hlinks.prev hself ?_ ?_
    (fun _ => hlinks.alone)
  · exact (hmem u).2 (.inr hu)
  · exact List.mem_append.2 hu
  · exact d.once hl' hlist ht ((hmem t).2 (.inl rfl))
  · refine ⟨m'.tlCount tl - 1, by rw [hcount], ?_⟩
    have hle : 1 ≤ m'.tlCount tl := by
      rw [UInt32.le_iff_toNat_le, hold]
      exact Nat.le_add_left 1 _
    rw [UInt32.toNat_sub_of_le _ _ hle, hold]
    rfl
  · have hnodes : nodes tl (p ++ q) = pre ++ lastNode tl p :: firstNode tl q :: post := by
      simpa using hsplit []
    have hnodes' : nodes tl (p ++ t :: q) =
        pre ++ lastNode tl p :: .tListnode t :: firstNode tl q :: post := by
      simpa using hsplit [t]
    have hchain := h.chained hlist
    have hdistinct := nodup_nodes tl hnodup
    rw [hnodes'] at hchain hdistinct
    rw [hnodes]
    exact hlinks.chained hchain hdistinct

theorem Represents.insertafternode (h : Represents m d) (hlist : d.lists tl = some (p ++ q))
    (hfree : d.Free t) :
    Gives ok (threadlistInsertafternode (lastNode tl p) t)
      (fun _ m' => Relinks (Spliced · · (lastNode tl p) (.tListnode t) (firstNode tl q)) m m')
      m := by
  have hnot : t ∉ p ++ q := hfree.2 tl _ hlist
  rw [List.mem_append, not_or] at hnot
  obtain ⟨hnext, hprev⟩ := h.apart hfree
  exact gives_insertafternode (h.joined hlist).1 (lastNode_ne hnot.1) (firstNode_ne hnot.2) hnext
    hprev

theorem Represents.insertbeforenode (h : Represents m d) (hlist : d.lists tl = some (p ++ q))
    (hfree : d.Free t) :
    Gives ok (threadlistInsertbeforenode t (firstNode tl q))
      (fun _ m' => Relinks (Spliced · · (lastNode tl p) (.tListnode t) (firstNode tl q)) m m')
      m := by
  have hnot : t ∉ p ++ q := hfree.2 tl _ hlist
  rw [List.mem_append, not_or] at hnot
  obtain ⟨hnext, hprev⟩ := h.apart hfree
  exact gives_insertbeforenode (h.joined hlist).2 (lastNode_ne hnot.1) (firstNode_ne hnot.2) hnext
    hprev

theorem Represents.removenode (h : Represents m d) (hlist : d.lists tl = some (p ++ t :: q)) :
    Gives ok (threadlistRemovenode (.tListnode t))
      (fun _ m' => Relinks (Bridged · · (lastNode tl p) (.tListnode t) (firstNode tl q)) m m')
      m := by
  obtain ⟨hleft, hright⟩ := h.joined_listnode hlist
  have hnot := (List.nodup_cons.1 (List.nodup_middle.1 (d.nodup hlist))).1
  rw [List.mem_append, not_or] at hnot
  exact gives_removenode hleft.2 hright.1 (lastNode_ne hnot.1) (firstNode_ne hnot.2)

theorem Represents.remhead (h : Represents m d) (hlist : d.lists tl = some ([] ++ t :: l)) :
    Gives ok (threadlistRemhead tl) (fun r m' => r = some t ∧ Represents m' (d.erase hlist)) m := by
  obtain ⟨hleft, hright⟩ := h.joined_listnode hlist
  have hready : d.ready t := d.listed hlist (by simp)
  simp only [threadlistRemhead, gives_bind, gives_get]
  refine gives_deref hleft.1 ?_
  rw [if_neg (by rw [hright.1]; exact Option.some_ne_none _)]
  simp only [gives_bind, gives_get, gives_pure]
  refine gives_mono (h.removenode hlist) fun _ _ hm => ?_
  refine gives_mono (h.erase hlist hm) fun _ _ herased => ⟨?_, herased.1⟩
  rw [herased.2]
  exact h.self hready

theorem Represents.remtail (h : Represents m d) (hlist : d.lists tl = some (l ++ t :: [])) :
    Gives ok (threadlistRemtail tl) (fun r m' => r = some t ∧ Represents m' (d.erase hlist)) m := by
  obtain ⟨hleft, hright⟩ := h.joined_listnode hlist
  have hready : d.ready t := d.listed hlist (by simp)
  simp only [threadlistRemtail, gives_bind, gives_get]
  refine gives_deref hright.2 ?_
  rw [if_neg (by rw [hleft.2]; exact Option.some_ne_none _)]
  simp only [gives_bind, gives_get, gives_pure]
  refine gives_mono (h.removenode hlist) fun _ _ hm => ?_
  refine gives_mono (h.erase hlist hm) fun _ _ herased => ⟨?_, herased.1⟩
  rw [herased.2]
  exact h.self hready

/-- The links of an empty list. -/
theorem Represents.empty (h : Represents m d) (hlist : d.lists tl = some []) :
    m.Joined (.tlHead tl) (.tlTail tl) :=
  h.joined (p := []) (q := []) hlist

theorem Represents.remheadEmpty (h : Represents m d) (hlist : d.lists tl = some []) :
    Gives ok (threadlistRemhead tl) (fun r m' => r = none ∧ m' = m) m := by
  simp only [threadlistRemhead, gives_bind, gives_get]
  refine gives_deref (h.empty hlist).1 ?_
  rw [if_pos (h.tail hlist).1]
  exact (gives_pure none).2 ⟨rfl, rfl⟩

theorem Represents.remtailEmpty (h : Represents m d) (hlist : d.lists tl = some []) :
    Gives ok (threadlistRemtail tl) (fun r m' => r = none ∧ m' = m) m := by
  simp only [threadlistRemtail, gives_bind, gives_get]
  refine gives_deref (h.empty hlist).2 ?_
  rw [if_pos (h.head hlist).1]
  exact (gives_pure none).2 ⟨rfl, rfl⟩

/-- `tl` becomes an empty list; the nodes of the other lists and of the threads stay as they are. -/
theorem Represents.openList (h : Represents m d) (hlist : ∀ l, d.lists tl = some l → l = [])
    (hjoined : m'.Joined (.tlHead tl) (.tlTail tl))
    (hhead : m'.prev (.tlHead tl) = none ∧ m'.tlnSelf (.tlHead tl) = none)
    (htail : m'.next (.tlTail tl) = none ∧ m'.tlnSelf (.tlTail tl) = none)
    (hframe : ∀ n, n ≠ .tlHead tl → n ≠ .tlTail tl →
      m'.next n = m.next n ∧ m'.prev n = m.prev n ∧ m'.tlnSelf n = m.tlnSelf n)
    (hcount : m'.tlCount = Function.update m.tlCount tl 0) : Represents m' (d.openList tl) := by
  have hnode : ∀ {tl'} l' {n}, tl' ≠ tl → n ∈ nodes tl' l' →
      m'.next n = m.next n ∧ m'.prev n = m.prev n ∧ m'.tlnSelf n = m.tlnSelf n := by
    intro tl' l' n hne hn
    refine hframe n ?_ ?_ <;> rintro rfl
    · rcases mem_nodes.1 hn with e | e | ⟨u, -, e⟩ <;> cases e
      exact hne rfl
    · rcases mem_nodes.1 hn with e | e | ⟨u, -, e⟩ <;> cases e
      exact hne rfl
  have hlistnode := fun t : Pointer => hframe (.tListnode t) nofun nofun
  constructor
  · intro tl' l' hl'
    rcases Deques.of_update_some hl' with ⟨rfl, rfl⟩ | ⟨hne, hl'⟩
    · exact List.isChain_pair.2 hjoined
    · exact (h.chained hl').congr (fun n hn => (hnode l' hne hn).1)
        fun n hn => (hnode l' hne hn).2.1
  · intro tl' l' hl'
    rcases Deques.of_update_some hl' with ⟨rfl, rfl⟩ | ⟨hne, hl'⟩
    · exact hhead
    · obtain ⟨-, hp, hs⟩ := hnode l' hne (mem_nodes.2 (.inl rfl))
      rw [hp, hs]
      exact h.head hl'
  · intro tl' l' hl'
    rcases Deques.of_update_some hl' with ⟨rfl, rfl⟩ | ⟨hne, hl'⟩
    · exact htail
    · obtain ⟨hn, -, hs⟩ := hnode l' hne (mem_nodes.2 (.inr (.inl rfl)))
      rw [hn, hs]
      exact h.tail hl'
  · intro u hu
    rw [(hlistnode u).2.2]
    exact h.self hu
  · intro u hu
    obtain ⟨hready, -, hnone⟩ := Deques.free_put hu
    rw [(hlistnode u).1, (hlistnode u).2.1]
    refine h.apart ⟨hready, fun tl' l' hl' hmem => ?_⟩
    by_cases hne : tl' = tl
    · subst hne
      rw [hlist l' hl'] at hmem
      cases hmem
    · exact hnone tl' l' hne hl' hmem
  · intro tl' l' hl'
    rw [hcount]
    rcases Deques.of_update_some hl' with ⟨rfl, rfl⟩ | ⟨hne, hl'⟩
    · rw [Function.update_self]
      rfl
    · rw [Function.update_of_ne hne]
      exact h.count hl'

theorem Represents.init (h : Represents m d) (hlist : ∀ l, d.lists tl = some l → l = []) :
    Gives ok (threadlistInit tl) (fun _ m' => Represents m' (d.openList tl)) m := by
  simp only [threadlistInit, setNext, setPrev, setSelf, setCount, gives_bind, gives_modify]
  have hne : Node.tlHead tl ≠ .tlTail tl := by simp
  refine h.openList hlist ⟨?_, ?_⟩ ⟨?_, ?_⟩ ⟨?_, ?_⟩ (fun n hh ht => ⟨?_, ?_, ?_⟩) rfl <;>
    dsimp only
  · rw [Function.update_of_ne hne, Function.update_self]
  · rw [Function.update_self]
  · rw [Function.update_of_ne hne, Function.update_self]
  · rw [Function.update_of_ne hne, Function.update_self]
  · rw [Function.update_self]
  · rw [Function.update_self]
  · rw [Function.update_of_ne ht, Function.update_of_ne hh]
  · rw [Function.update_of_ne ht, Function.update_of_ne hh]
  · rw [Function.update_of_ne ht, Function.update_of_ne hh]

theorem Represents.cleanup (h : Represents m d) (hlist : d.lists tl = some []) :
    Gives ok (threadlistCleanup tl) (fun _ m' => Represents m' (d.closeList tl)) m := by
  obtain ⟨hnext, hprev⟩ := h.empty hlist
  have hcount : m.tlCount tl = 0 := UInt32.toNat_inj.1 (h.count hlist)
  simp only [threadlistCleanup, threadlistIsempty, gives_bind, gives_get, gives_pure]
  refine gives_kassert hnext (gives_kassert (h.head hlist).1 (gives_kassert (h.tail hlist).1 ?_))
  refine gives_kassert hprev (gives_kassert (h.head hlist).2 (gives_kassert (h.tail hlist).2 ?_))
  refine gives_kassert (by simp [hcount]) (gives_kassert hcount ?_)
  refine ⟨fun hl => h.chained (Deques.of_update_none hl),
    fun hl => h.head (Deques.of_update_none hl), fun hl => h.tail (Deques.of_update_none hl),
    fun hu => h.self hu, fun {u} hu => h.apart ?_, fun hl => h.count (Deques.of_update_none hl)⟩
  refine ⟨hu.1, fun tl' l' hl' hmem => ?_⟩
  by_cases hne : tl' = tl
  · subst hne
    cases hlist.symm.trans hl'
    cases hmem
  · exact hu.2 tl' l' ((Function.update_of_ne hne _ _).trans hl') hmem

theorem Represents.nodeInit (h : Represents m d) (hnot : ∀ tl l, d.lists tl = some l → t ∉ l) :
    Gives ok (threadlistnodeInit t) (fun _ m' => Represents m' (d.openThread t)) m := by
  simp only [threadlistnodeInit, setNext, setPrev, setSelf, gives_bind, gives_modify]
  have hnode : ∀ {tl l n}, d.lists tl = some l → n ∈ nodes tl l → n ≠ .tListnode t := by
    rintro tl l n hl hn rfl
    rcases mem_nodes.1 hn with e | e | ⟨u, hu, e⟩ <;> cases e
    exact hnot tl l hl hu
  constructor
  · intro tl l hl
    exact (h.chained hl).congr (fun n hn => Function.update_of_ne (hnode hl hn) _ _)
      fun n hn => Function.update_of_ne (hnode hl hn) _ _
  · intro tl l hl
    have hne : Node.tlHead tl ≠ .tListnode t := by simp
    dsimp only
    rw [Function.update_of_ne hne, Function.update_of_ne hne]
    exact h.head hl
  · intro tl l hl
    have hne : Node.tlTail tl ≠ .tListnode t := by simp
    dsimp only
    rw [Function.update_of_ne hne, Function.update_of_ne hne]
    exact h.tail hl
  · intro u hu
    by_cases e : u = t
    · subst e
      exact Function.update_self _ _ _
    · refine (Function.update_of_ne (fun e' => e (Node.tListnode.inj e')) _ _).trans (h.self ?_)
      exact hu.resolve_left e
  · intro u hu
    by_cases e : u = t
    · subst e
      exact ⟨Function.update_self _ _ _, Function.update_self _ _ _⟩
    · have hne : Node.tListnode u ≠ .tListnode t := fun e' => e (Node.tListnode.inj e')
      have hfree : d.Free u := ⟨hu.1.resolve_left e, hu.2⟩
      exact ⟨(Function.update_of_ne hne _ _).trans (h.apart hfree).1,
        (Function.update_of_ne hne _ _).trans (h.apart hfree).2⟩
  · exact fun hl => h.count hl

theorem Represents.nodeCleanup (h : Represents m d) (hfree : d.Free t) :
    Gives ok (threadlistnodeCleanup t) (fun _ m' => Represents m' (d.closeThread hfree)) m := by
  obtain ⟨hnext, hprev⟩ := h.apart hfree
  simp only [threadlistnodeCleanup, gives_bind, gives_get]
  refine gives_kassert hnext (gives_kassert hprev (gives_kassert ?_ ?_))
  · rw [h.self hfree.1]
    exact Option.some_ne_none t
  · exact ⟨fun hl => h.chained hl, fun hl => h.head hl, fun hl => h.tail hl, fun hu => h.self hu.2,
      fun hu => h.apart ⟨hu.1.2, hu.2⟩, fun hl => h.count hl⟩

/-- Every function does its step, and returns what the step returns. -/
theorem Represents.step {d' : Deques} {op : Op} {r : Option Pointer} (h : Represents m d)
    (hstep : d.Step op r d') :
    Gives ok op.run (fun r' m' => r' = r ∧ Represents m' d') m := by
  cases hstep with
  | init hlist =>
      rw [Op.run, gives_bind]
      exact gives_mono (h.init hlist) fun _ _ hrep => (gives_pure none).2 ⟨rfl, hrep⟩
  | cleanup hlist =>
      rw [Op.run, gives_bind]
      exact gives_mono (h.cleanup hlist) fun _ _ hrep => (gives_pure none).2 ⟨rfl, hrep⟩
  | nodeInit hnot =>
      rw [Op.run, gives_bind]
      exact gives_mono (h.nodeInit hnot) fun _ _ hrep => (gives_pure none).2 ⟨rfl, hrep⟩
  | nodeCleanup hfree =>
      rw [Op.run, gives_bind]
      exact gives_mono (h.nodeCleanup hfree) fun _ _ hrep => (gives_pure none).2 ⟨rfl, hrep⟩
  | @addhead tl t l hlist hfree =>
      simp only [Op.run, threadlistAddhead, gives_bind]
      rw [← lastNode_nil]
      refine gives_mono (h.insertafternode hlist hfree) fun _ _ hm => ?_
      exact gives_mono (h.insert hlist hfree hm) fun _ _ hrep => (gives_pure none).2 ⟨rfl, hrep⟩
  | @addtail tl t l hlist hfree =>
      simp only [Op.run, threadlistAddtail, gives_bind]
      rw [← firstNode_nil]
      refine gives_mono (h.insertbeforenode hlist hfree) fun _ _ hm => ?_
      exact gives_mono (h.insert hlist hfree hm) fun _ _ hrep => (gives_pure none).2 ⟨rfl, hrep⟩
  | @insertafter tl onlist addee p q hlist hfree =>
      simp only [Op.run, threadlistInsertafter, gives_bind]
      have hnode : .tListnode onlist = lastNode tl (p ++ [onlist]) := lastNode_concat.symm
      rw [hnode]
      refine gives_mono (h.insertafternode hlist hfree) fun _ _ hm => ?_
      exact gives_mono (h.insert hlist hfree hm) fun _ _ hrep => (gives_pure none).2 ⟨rfl, hrep⟩
  | @insertbefore tl addee onlist p q hlist hfree =>
      simp only [Op.run, threadlistInsertbefore, gives_bind]
      have hnode : .tListnode onlist = firstNode tl (onlist :: q) := rfl
      rw [hnode]
      refine gives_mono (h.insertbeforenode hlist hfree) fun _ _ hm => ?_
      exact gives_mono (h.insert hlist hfree hm) fun _ _ hrep => (gives_pure none).2 ⟨rfl, hrep⟩
  | remheadEmpty hlist =>
      exact gives_mono (h.remheadEmpty hlist) fun _ _ hpost => ⟨hpost.1, hpost.2 ▸ h⟩
  | remhead hlist => exact h.remhead hlist
  | remtailEmpty hlist =>
      exact gives_mono (h.remtailEmpty hlist) fun _ _ hpost => ⟨hpost.1, hpost.2 ▸ h⟩
  | remtail hlist => exact h.remtail hlist
  | remove hlist =>
      simp only [Op.run, threadlistRemove, gives_bind]
      refine gives_mono (h.removenode hlist) fun _ _ hm => ?_
      exact gives_mono (h.erase hlist hm) fun _ _ hrep => (gives_pure none).2 ⟨rfl, hrep.1⟩

/-- Run lemma. -/
theorem Represents.run {d' : Deques} {ops : List Op} {rs : List (Option Pointer)}
    (hrun : d.Run ops rs d') :
    ∀ {m : Memory}, Represents m d →
      Gives ok (runOps ops) (fun rs' m' => rs' = rs ∧ Represents m' d') m := by
  induction hrun with
  | nil => exact fun h => (gives_pure []).2 ⟨rfl, h⟩
  | @cons d d' d'' op ops r rs hstep _ ih =>
      intro m h
      simp only [runOps, gives_bind]
      refine gives_mono (h.step hstep) fun r' m' hone => ?_
      refine gives_mono (ih hone.2) fun rs' m'' hrest => ?_
      rw [hone.1, hrest.1]
      exact (gives_pure _).2 ⟨rfl, hrest.2⟩

theorem represents_nothing (m : Memory) : Represents m .nothing :=
  ⟨nofun, nofun, nofun, fun h => h.elim, fun h => h.1.elim, nofun⟩

end Steps

/-! ## What can be seen of a list -/

section Shows

variable {ok : Panic → Prop} {m : Memory} {d : Deques} {n : Node} {tl t : Pointer}
  {l : List Pointer} {fuel : Nat}

/-- From the node `n` on the loop visits the threads whose nodes are behind it. -/
theorem gives_forallBehind (hself : ∀ t ∈ l, m.tlnSelf (.tListnode t) = some t)
    (htail : m.tlnSelf (.tlTail tl) = none)
    (hchain : m.Chained (n :: (l.map .tListnode ++ [.tlTail tl]))) (hfuel : l.length < fuel) :
    Gives ok (forallBehind fuel n) (fun r m' => r = l ∧ m' = m) m := by
  induction l generalizing n fuel with
  | nil =>
      obtain ⟨fuel, rfl⟩ := Nat.exists_eq_add_of_lt hfuel
      simp only [forallBehind, gives_bind, gives_get]
      refine gives_deref (Links.chained_cons_cons.1 hchain).1.1 ?_
      rw [htail]
      exact (gives_pure []).2 ⟨rfl, rfl⟩
  | cons t l ih =>
      obtain ⟨fuel, rfl⟩ := Nat.exists_eq_add_of_lt hfuel
      obtain ⟨hjoined, hrest⟩ := Links.chained_cons_cons.1 hchain
      have ht := hself t List.mem_cons_self
      simp only [forallBehind, gives_bind, gives_get]
      refine gives_deref hjoined.1 ?_
      rw [ht]
      refine (gives_bind _).2 ?_
      have hlt : l.length < (t :: l).length + fuel := by
        rw [List.length_cons]
        omega
      have hih := ih (fun u hu => hself u (List.mem_cons_of_mem t hu)) hrest hlt
      refine gives_mono hih fun r m' hpost => ?_
      rw [hpost.1, hpost.2]
      exact (gives_pure _).2 ⟨rfl, rfl⟩

/-- Before the node `n` the loop visits the threads whose nodes are before it. -/
theorem gives_forallBefore (hself : ∀ t ∈ l, m.tlnSelf (.tListnode t) = some t)
    (hhead : m.tlnSelf (.tlHead tl) = none)
    (hchain : m.Chained (.tlHead tl :: (l.reverse.map .tListnode ++ [n])))
    (hfuel : l.length < fuel) :
    Gives ok (forallBefore fuel n) (fun r m' => r = l ∧ m' = m) m := by
  induction l generalizing n fuel with
  | nil =>
      obtain ⟨fuel, rfl⟩ := Nat.exists_eq_add_of_lt hfuel
      simp only [forallBefore, gives_bind, gives_get]
      refine gives_deref (Links.chained_cons_cons.1 hchain).1.2 ?_
      rw [hhead]
      exact (gives_pure []).2 ⟨rfl, rfl⟩
  | cons t l ih =>
      obtain ⟨fuel, rfl⟩ := Nat.exists_eq_add_of_lt hfuel
      -- the node of `t` is the last one before `n`
      have hsplit : Node.tlHead tl :: ((t :: l).reverse.map .tListnode ++ [n]) =
          (.tlHead tl :: l.reverse.map .tListnode) ++ .tListnode t :: n :: [] := by simp
      rw [hsplit] at hchain
      obtain ⟨hrest, hjoined, -⟩ := Links.chained_append_cons_cons.1 hchain
      have ht := hself t List.mem_cons_self
      simp only [forallBefore, gives_bind, gives_get]
      refine gives_deref hjoined.2 ?_
      rw [ht]
      refine (gives_bind _).2 ?_
      have hlt : l.length < (t :: l).length + fuel := by
        rw [List.length_cons]
        omega
      have hih := ih (fun u hu => hself u (List.mem_cons_of_mem t hu)) hrest hlt
      refine gives_mono hih fun r m' hpost => ?_
      rw [hpost.1, hpost.2]
      exact (gives_pure _).2 ⟨rfl, rfl⟩

/-- The memory shows the threads `l` on the list `tl`: both loops visit them, `tl_count` is their
number, and they come off the list at either end. -/
structure Memory.Shows (m : Memory) (tl : Pointer) (l : List Pointer) : Prop where
  forward : ∀ fuel, l.length < fuel → (threadlistForall fuel tl).result m = .ok (.ok l, m)
  backward : ∀ fuel, l.length < fuel →
    (threadlistForallRev fuel tl).result m = .ok (.ok l.reverse, m)
  count : (m.tlCount tl).toNat = l.length
  isempty : (threadlistIsempty tl).result m = .ok (.ok (decide (l = [])), m)
  remhead : ∃ m', (threadlistRemhead tl).result m = .ok (.ok l.head?, m')
  remtail : ∃ m', (threadlistRemtail tl).result m = .ok (.ok l.getLast?, m')

/-- A call that only gives one value and one state. -/
theorem result_of_gives {α : Type} {c : ListCall α} {a : α}
    (h : Gives (fun _ => False) c (fun r m' => r = a ∧ m' = m) m) :
    c.result m = .ok (.ok a, m) := by
  obtain ⟨r, m', hres, a', rfl, rfl, rfl⟩ := wp.exists_result h
  exact hres

theorem Represents.shows (h : Represents m d) (hlist : d.lists tl = some l) : m.Shows tl l where
  forward fuel hfuel := by
    refine result_of_gives ?_
    exact gives_forallBehind (fun t ht => h.self (d.listed hlist ht)) (h.tail hlist).2
      (h.chained hlist) hfuel
  backward fuel hfuel := by
    refine result_of_gives ?_
    refine gives_forallBefore (fun t ht => h.self (d.listed hlist (List.mem_reverse.1 ht)))
      (h.head hlist).2 ?_ (by rwa [List.length_reverse])
    rw [List.reverse_reverse]
    exact h.chained hlist
  count := h.count hlist
  isempty := by
    have hempty : m.tlCount tl = 0 ↔ l = [] := by
      rw [← UInt32.toNat_inj, h.count hlist]
      exact List.length_eq_zero_iff
    refine result_of_gives ?_
    simp only [threadlistIsempty, gives_bind, gives_get, gives_pure]
    exact ⟨decide_eq_decide.2 hempty, trivial⟩
  remhead := by
    cases l with
    | nil =>
        obtain ⟨r, m', hres, a, rfl, rfl, rfl⟩ := wp.exists_result (h.remheadEmpty hlist)
        exact ⟨_, hres⟩
    | cons t l =>
        obtain ⟨r, m', hres, a, rfl, rfl, -⟩ := wp.exists_result (h.remhead hlist)
        exact ⟨_, hres⟩
  remtail := by
    rcases List.eq_nil_or_concat l with rfl | ⟨l, t, rfl⟩
    · obtain ⟨r, m', hres, a, rfl, rfl, rfl⟩ := wp.exists_result (h.remtailEmpty hlist)
      exact ⟨_, hres⟩
    · rw [List.concat_eq_append] at hlist ⊢
      obtain ⟨r, m', hres, a, rfl, rfl, -⟩ := wp.exists_result (h.remtail hlist)
      refine ⟨m', ?_⟩
      rw [List.getLast?_concat]
      exact hres

end Shows

/-- After any sequence of calls, made as `Deques.Step` allows, the functions have returned what
the sequences return, every list shows its sequence, and a thread on no list has no links. -/
theorem threadlists_are_deques {ops : List Op} {rs : List (Option Pointer)} {d : Deques}
    (hrun : Deques.nothing.Run ops rs d) (m : Memory) :
    ∃ m', (runOps ops).result m = .ok (.ok rs, m') ∧
      (∀ tl l, d.lists tl = some l → m'.Shows tl l) ∧
      ∀ t, d.Free t → m'.next (.tListnode t) = none ∧ m'.prev (.tListnode t) = none := by
  obtain ⟨r, m', hres, a, rfl, rfl, hrep⟩ :=
    wp.exists_result (Represents.run hrun (represents_nothing m))
  exact ⟨m', hres, fun tl l hlist => hrep.shows hlist, fun t hfree => hrep.apart hfree⟩

def listA : Pointer := ⟨0x100, by decide⟩

def listB : Pointer := ⟨0x200, by decide⟩

def threadA : Pointer := ⟨0x1000, by decide⟩

/-- A thread is taken off one list and put on another. -/
def moveOps : List Op :=
  [.init listA, .init listB, .nodeInit threadA, .addtail listA threadA, .remhead listA,
    .addhead listB threadA]

theorem moveOps_run : ∃ d,
    Deques.nothing.Run moveOps [none, none, none, none, some threadA, none] d ∧
      d.lists listB = some [threadA] := by
  have hne : listB ≠ listA := by decide
  -- both lists are empty before the thread is put on one
  have hopen : ∀ tl l,
      (((Deques.nothing.openList listA).openList listB).openThread threadA).lists tl = some l →
        l = [] := by
    intro tl l h
    rw [Deques.lists_openThread, Deques.lists_openList] at h
    rcases Deques.of_update_some h with ⟨-, e⟩ | ⟨-, h⟩
    · exact e
    · rcases Deques.of_update_some h with ⟨-, e⟩ | ⟨-, h⟩
      · exact e
      · cases h
  have hfree :
      (((Deques.nothing.openList listA).openList listB).openThread threadA).Free threadA := by
    refine ⟨Deques.ready_openThread _ _, fun tl l h => ?_⟩
    rw [hopen tl l h]
    exact List.not_mem_nil
  refine ⟨_, .cons (.init nofun) (.cons (.init fun l h => ?_) (.cons (.nodeInit fun tl l h => ?_)
    (.cons (.addtail (l := []) ?_ hfree)
      (.cons (.remhead (l := []) ?_)
        (.cons (.addhead (l := []) ?_ ⟨?_, fun tl l h => ?_⟩) .nil))))),
    ?_⟩
  · rw [Deques.lists_openList, Function.update_of_ne hne] at h
    cases h
  · rw [hopen tl l h]
    exact List.not_mem_nil
  · rw [Deques.lists_openThread, Deques.lists_openList, Function.update_of_ne hne.symm,
      Deques.lists_openList, Function.update_self]
    rfl
  · rw [Deques.lists_insert, Function.update_self]
  · rw [Deques.lists_erase, Function.update_of_ne hne, Deques.lists_insert,
      Function.update_of_ne hne, Deques.lists_openThread, Deques.lists_openList,
      Function.update_self]
    rfl
  · exact Deques.ready_openThread _ _
  · rw [Deques.lists_erase] at h
    rcases Deques.of_update_some h with ⟨-, e⟩ | ⟨hA, h⟩
    · rw [e]
      exact List.not_mem_nil
    · rw [Deques.lists_insert] at h
      rcases Deques.of_update_some h with ⟨e, -⟩ | ⟨-, h⟩
      · exact (hA e).elim
      · rw [hopen tl l h]
        exact List.not_mem_nil
  · exact (congrFun (Deques.lists_insert _ _ _) listB).trans (Function.update_self _ _ _)

theorem threadlists_are_deques_move : ∃ m',
    (runOps moveOps).result ⟨⟨fun _ => none, fun _ => none⟩, fun _ => none, fun _ => 7⟩ =
      .ok (.ok [none, none, none, none, some threadA, none], m') ∧ m'.Shows listB [threadA] := by
  obtain ⟨d, hrun, hlist⟩ := moveOps_run
  obtain ⟨m', hres, hshows, -⟩ := threadlists_are_deques hrun
    ⟨⟨fun _ => none, fun _ => none⟩, fun _ => none, fun _ => 7⟩
  exact ⟨m', hres, hshows listB [threadA] hlist⟩

end Os161.Threadlist

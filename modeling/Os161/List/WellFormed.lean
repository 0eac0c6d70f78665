import Os161.List.Contents

set_option autoImplicit false

/-!
# Well-formed lists

What the pointers of a list say by themselves: `Follows` goes along one of the two pointers of the
nodes, and `WellFormed` says that both ways visit the same nodes. `Lst.Contents` reads keys and
data along the `next` pointers. A list that is represented by its nodes (`Rep`) has their contents,
and it is well-formed when the `prev` pointers are right, too.
-/

namespace Os161.LinkedList

variable {δ : Type}

/-- From `p` on, the pointer `g` of the nodes leads through the nodes at `as`, and then nowhere. -/
def Follows (x : Lst δ) (g : Node δ → Option Addr) : Option Addr → List Addr → Prop
  | p, [] => p = none
  | p, a :: as => p = some a ∧ ∃ n, x.mem a = some n ∧ Follows x g (g n) as

/-- A well-formed doubly linked list with the nodes at `as`. -/
structure WellFormed (x : Lst δ) (as : List Addr) : Prop where
  forward : Follows x Node.next x.first as
  backward : Follows x Node.prev x.last as.reverse
  first_prev : ∀ n, x.node x.first = some n → n.prev = none
  last_next : ∀ n, x.node x.last = some n → n.next = none
  ends : x.first = none ↔ x.last = none
  length : x.length = as.length

def Node.item (n : Node δ) : Item δ := (n.key, n.data)

/-- Along the `next` pointers the list holds `is`. -/
def Lst.Contents (x : Lst δ) (is : List (Item δ)) : Prop :=
  ∃ as, Follows x Node.next x.first as ∧ as.map (fun a => (x.mem a).map Node.item) = is.map some

/-- What the list holds is as `R` says. -/
def Lst.Finds (x : Lst δ) (R : List (Item δ) → Prop) : Prop := ∃ is, x.Contents is ∧ R is

section Pointers

variable {x : Lst δ} {g : Node δ → Option Addr} {p : Option Addr}

/-- There is one way to go. -/
theorem Follows.unique {as bs : List Addr} (h : Follows x g p as) (h' : Follows x g p bs) :
    as = bs := by
  induction as generalizing p bs with
  | nil =>
      cases bs with
      | nil => rfl
      | cons b bs => exact absurd (Eq.trans (Eq.symm h) h'.1) (by simp)
  | cons a as ih =>
      obtain ⟨rfl, n, hn, h⟩ := h
      cases bs with
      | nil => exact absurd h' (by simp [Follows])
      | cons b bs =>
          obtain ⟨e, m, hm, h'⟩ := h'
          obtain rfl := Option.some.inj e
          obtain rfl := Option.some.inj (hn.symm.trans hm)
          rw [ih h h']

/-- What comes before a node on the way leads to it. -/
theorem Follows.next {as : List Addr} {a b : Addr} {bs : List Addr}
    (h : Follows x g p (as ++ a :: b :: bs)) : ∃ n, x.mem a = some n ∧ g n = some b := by
  induction as generalizing p with
  | nil =>
      obtain ⟨-, n, hn, hb, -⟩ := h
      exact ⟨n, hn, hb⟩
  | cons c as ih =>
      obtain ⟨-, m, -, h⟩ := h
      exact ih h

/-- The `prev` pointer of a node leads back to the node whose `next` pointer leads to it. -/
theorem WellFormed.prev {as bs : List Addr} {a b : Addr} (h : WellFormed x (as ++ a :: b :: bs)) :
    ∃ n, x.mem b = some n ∧ n.prev = some a := by
  have hback := h.backward
  have hrev : (as ++ a :: b :: bs).reverse = bs.reverse ++ b :: a :: as.reverse := by simp
  rw [hrev] at hback
  exact hback.next

theorem Lst.Contents.unique {is js : List (Item δ)} (h : x.Contents is) (h' : x.Contents js) :
    is = js := by
  obtain ⟨as, has, his⟩ := h
  obtain ⟨bs, hbs, hjs⟩ := h'
  obtain rfl := has.unique hbs
  exact List.map_injective_iff.2 (Option.some_injective _) (his.symm.trans hjs)

theorem Lst.Contents.finds_iff {is : List (Item δ)} (h : x.Contents is)
    (R : List (Item δ) → Prop) : x.Finds R ↔ R is := by
  constructor
  · rintro ⟨js, hjs, hR⟩
    rwa [h.unique hjs]
  · exact fun hR => ⟨is, h, hR⟩

end Pointers

variable {back : Bool} {x : Lst δ} {cells : List (Cell δ)}

theorem Rep.forward (h : Rep back x cells) : ∀ cs ds, cells = cs ++ ds →
    Follows x Node.next (headAddr ds) (ds.map Cell.addr) := by
  intro cs ds
  induction ds generalizing cs with
  | nil => exact fun _ => rfl
  | cons c ds ih =>
      intro e
      obtain ⟨p, hp, -⟩ := h.node cs c ds e
      exact ⟨rfl, _, hp, ih (cs ++ [c]) (by simp [e])⟩

theorem Rep.backward (h : Rep true x cells) : ∀ cs ds, cells = cs ++ ds →
    Follows x Node.prev (lastAddr cs) (cs.map Cell.addr).reverse := by
  intro cs
  induction cs using List.reverseRecOn with
  | nil => exact fun _ _ => rfl
  | append_singleton cs c ih =>
      intro ds e
      have e : cells = cs ++ c :: ds := by simp [e]
      obtain ⟨p, hp, hback⟩ := h.node cs c ds e
      obtain rfl := hback rfl
      rw [List.map_append, List.reverse_append]
      exact ⟨by simp, _, hp, ih (c :: ds) e⟩

theorem Rep.follows (h : Rep back x cells) : Follows x Node.next x.first (cells.map Cell.addr) := by
  rw [h.first]
  exact h.forward [] cells rfl

theorem Rep.contents (h : Rep back x cells) : x.Contents (items cells) := by
  refine ⟨cells.map Cell.addr, h.follows, ?_⟩
  unfold items
  rw [List.map_map, List.map_map]
  apply List.map_congr_left
  intro c hc
  obtain ⟨cs, ds, e⟩ := List.append_of_mem hc
  obtain ⟨p, hp, -⟩ := h.node cs c ds e
  simp [hp, Node.item, Cell.item]

theorem Rep.wellFormed (h : Rep true x cells) : WellFormed x (cells.map Cell.addr) where
  forward := h.follows
  backward := by
    rw [h.last]
    exact h.backward cells [] (by simp)
  first_prev n hn := by
    rw [h.first] at hn
    cases cells with
    | nil => cases hn
    | cons c cs =>
        obtain ⟨p, hp, hback⟩ := h.node [] c cs rfl
        obtain rfl := hback rfl
        obtain rfl := Option.some.inj (hp.symm.trans hn)
        rfl
  last_next n hn := by
    rw [h.last] at hn
    rcases List.eq_nil_or_concat cells with rfl | ⟨cs, c, rfl⟩
    · cases hn
    · obtain ⟨p, hp, -⟩ := h.node cs c [] (by simp)
      rw [List.concat_eq_append, lastAddr_append_cons] at hn
      obtain rfl := Option.some.inj (hp.symm.trans hn)
      rfl
  ends := by
    rw [h.first, h.last]
    simp [headAddr, lastAddr]
  length := by
    rw [h.length, List.length_map]

end Os161.LinkedList

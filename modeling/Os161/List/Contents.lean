import Os161.List.Shape

set_option autoImplicit false

/-!
# What the functions do to the contents of a list

The lists as sequences of keys and data. `Call.apply` is what a call does to such a sequence and
what it returns. The two kernels insert at different places when keys are equal: one before the
first key that is not smaller, the other behind the last of the keys that are not greater, unless
the first key of the list is not smaller already.
-/

namespace Os161.LinkedList

open Os161.Lib.Command
open Os161.Synch

variable {δ : Type}

/-- A key with its data. -/
abbrev Item (δ : Type) : Type := Key × Option δ

def Cell.item (c : Cell δ) : Item δ := (c.key, c.data)

/-- What is in the nodes. -/
def items (cells : List (Cell δ)) : List (Item δ) := cells.map Cell.item

/-- The key of a node in front of the list. -/
def frontKey : List (Item δ) → Key
  | [] => 0
  | i :: _ => i.1 - 1

/-- Where `linked_list_insert` puts a new node. -/
def Vud.insertItem (key : Key) (data : Option δ) (is : List (Item δ)) : List (Item δ) :=
  is.takeWhile (fun i => i.1.slt key) ++ (key, data) :: is.dropWhile fun i => i.1.slt key

/-- Where `linked_list_insert` puts a new node. -/
def Dvz.insertItem (key : Key) (data : Option δ) : List (Item δ) → List (Item δ)
  | [] => [(key, data)]
  | i :: is =>
      if key.sle i.1 then (key, data) :: i :: is
      else i :: (is.takeWhile (fun j => j.1.sle key) ++
        (key, data) :: is.dropWhile fun j => j.1.sle key)

def insertItem : Version → Key → Option δ → List (Item δ) → List (Item δ)
  | .vud => Vud.insertItem
  | .dvz => Dvz.insertItem

/-- What a call does to the contents, and what happens in it. -/
def Call.apply (v : Version) (c : Call δ) (is : List (Item δ)) : List (Item δ) × Event δ :=
  match c, is with
  | .prepend data, is => ((frontKey is, data) :: is, .prepend (frontKey is) data)
  | .insert key data, is => (insertItem v key data is, .insert key data)
  | .removeHead, [] => ([], .removeHead none none)
  | .removeHead, i :: is => (is, .removeHead i.2 (some i.1))

/-- A call has done to the contents what it should; with `back` the list is well-formed. -/
def Done (v : Version) (back : Bool) (c : Call δ) (cells : List (Cell δ)) (s : Locals δ × Lst δ) :
    Prop :=
  c.event s.1 = (c.apply v (items cells)).2 ∧
    ∃ cells', Rep back s.2 cells' ∧ items cells' = (c.apply v (items cells)).1

/-! ## Statements -/

section Statements

variable {x : Lst δ} {a b : Addr} {n m : Node δ} {l : Locals δ}

/-- A pointer is dereferenced. -/
theorem node_of {p : Option Addr} (hp : p = some a) (h : x.mem a = some n) : x.node p = some n := by
  rw [hp]
  exact h

theorem map_node {β : Type} {p : Option Addr} (h : x.node p = some n) (g : Node δ → β) :
    (x.node p).map g = some (g n) := by
  rw [h]
  rfl

theorem bind_node {β : Type} {p : Option Addr} (h : x.node p = some n) {g : Node δ → Option β}
    {r : β} (hg : g n = some r) : ((x.node p) >>= g) = some r := by
  rw [h]
  exact hg

/-- A store in a node. -/
theorem modify_of {p : Option Addr} (hp : p = some a) (h : x.mem a = some n)
    (g : Node δ → Node δ) : (x.modify p g).map (l, ·) = some (l, x.put a (g n)) := by
  rw [hp]
  simp [Lst.modify, h]

/-- A store in the new node. -/
theorem modify_put {p : Option Addr} (hp : p = some a) (g : Node δ → Node δ) :
    ((x.put a n).modify p g).map (l, ·) = some (l, x.put a (g n)) := by
  rw [modify_of hp (put_self x n)]
  simp [Lst.put]

theorem kfree_of {p : Option Addr} (hp : p = some a) (h : x.mem a = some n) :
    (x.kfree p).map (l, ·) = some (l, x.drop a) := by
  rw [hp]
  simp [Lst.kfree, h]

/-- A new node has any address that is free. -/
theorem ensures_createNode {key : Locals δ → Lst δ → Option Key} {k : Key}
    {Q : Locals δ × Lst δ → Prop} (hfresh : ∃ a, x.mem a = none) (hk : key l x = some k)
    (h : ∀ a, x.mem a = none → Q (l.setNewnode a k,
      x.put a { prev := none, next := none, key := k, data := l.data })) :
    Ensures (linkedListCreateNode key) (l, x) Q := by
  apply Ensures.pick
  · obtain ⟨a, ha⟩ := hfresh
    exact ⟨(_, _), a, k, ha, hk, rfl, rfl⟩
  · rintro ⟨l', x'⟩ ⟨a, k', ha, hk', rfl, rfl⟩
    obtain rfl : k = k' := Option.some.inj (hk.symm.trans hk')
    exact h a ha

end Statements

end Os161.LinkedList

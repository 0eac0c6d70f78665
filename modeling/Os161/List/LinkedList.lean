import Os161.Lib.Command
import Os161.Lib.Sections
import Os161.Synch.Refine

set_option autoImplicit false

/-!
# The linked lists

`linked_list_prepend`, `linked_list_insert` and `linked_list_remove_head` of
`kern/concurrent_list/linked_list.c` in both kernels, as commands over the memory of the nodes. The
functions of either kernel work under the lock of the list, and the threads that call them are a
client of that lock, in the sense of `Lib.Monitor`: between any two statements other threads run.
-/

namespace Os161.LinkedList

open Os161.Lib.Command
open Os161.Lib.Runs
open Os161.Lib.Monitor
open Os161.Synch

/-- Addresses of nodes. A pointer is an `Option Addr`. -/
abbrev Addr : Type := Nat

/-- A C `int`. -/
abbrev Key : Type := BitVec 32

variable {δ : Type}

/-- `Linked_List_Node`. -/
structure Node (δ : Type) where
  prev : Option Addr
  next : Option Addr
  key : Key
  data : Option δ
  deriving DecidableEq, Repr

def Node.setPrev (n : Node δ) (p : Option Addr) : Node δ := { n with prev := p }

def Node.setNext (n : Node δ) (p : Option Addr) : Node δ := { n with next := p }

/-- `Linked_List` without its lock, and the memory of the nodes. -/
structure Lst (δ : Type) where
  mem : Addr → Option (Node δ)
  first : Option Addr
  last : Option Addr
  length : Int

/-- `linked_list_create`. -/
def linkedListCreate : Lst δ := { mem := fun _ => none, first := none, last := none, length := 0 }

def Lst.setFirst (x : Lst δ) (p : Option Addr) : Lst δ := { x with first := p }

def Lst.setLast (x : Lst δ) (p : Option Addr) : Lst δ := { x with last := p }

def Lst.setLength (x : Lst δ) (n : Int) : Lst δ := { x with length := n }

/-- Stores a node. -/
def Lst.put (x : Lst δ) (a : Addr) (n : Node δ) : Lst δ :=
  { x with mem := Function.update x.mem a (some n) }

/-- Dereferences a pointer. -/
def Lst.node (x : Lst δ) (p : Option Addr) : Option (Node δ) := p.bind x.mem

/-- Stores in the fields of a node. -/
def Lst.modify (x : Lst δ) (p : Option Addr) (g : Node δ → Node δ) : Option (Lst δ) :=
  p.bind fun a => (x.mem a).map fun n => x.put a (g n)

/-- The node at `a` is given back. -/
def Lst.drop (x : Lst δ) (a : Addr) : Lst δ := { x with mem := Function.update x.mem a none }

/-- `kfree`. -/
def Lst.kfree (x : Lst δ) (p : Option Addr) : Option (Lst δ) :=
  p.bind fun a => (x.mem a).map fun _ => x.drop a

section Fields

variable (x : Lst δ) (p : Option Addr) (k : Int) {a b : Addr} (n : Node δ)

@[simp] theorem setFirst_mem : (x.setFirst p).mem = x.mem := rfl
@[simp] theorem setFirst_first : (x.setFirst p).first = p := rfl
@[simp] theorem setFirst_last : (x.setFirst p).last = x.last := rfl
@[simp] theorem setFirst_length : (x.setFirst p).length = x.length := rfl
@[simp] theorem setLast_mem : (x.setLast p).mem = x.mem := rfl
@[simp] theorem setLast_first : (x.setLast p).first = x.first := rfl
@[simp] theorem setLast_last : (x.setLast p).last = p := rfl
@[simp] theorem setLast_length : (x.setLast p).length = x.length := rfl
@[simp] theorem setLength_mem : (x.setLength k).mem = x.mem := rfl
@[simp] theorem setLength_first : (x.setLength k).first = x.first := rfl
@[simp] theorem setLength_last : (x.setLength k).last = x.last := rfl
@[simp] theorem setLength_length : (x.setLength k).length = k := rfl
@[simp] theorem put_first : (x.put a n).first = x.first := rfl
@[simp] theorem put_last : (x.put a n).last = x.last := rfl
@[simp] theorem put_length : (x.put a n).length = x.length := rfl
@[simp] theorem drop_first : (x.drop a).first = x.first := rfl
@[simp] theorem drop_last : (x.drop a).last = x.last := rfl
@[simp] theorem drop_length : (x.drop a).length = x.length := rfl

@[simp] theorem setFirst_put : (x.setFirst p).put a n = (x.put a n).setFirst p := rfl
@[simp] theorem setLast_put : (x.setLast p).put a n = (x.put a n).setLast p := rfl
@[simp] theorem setFirst_drop : (x.setFirst p).drop a = (x.drop a).setFirst p := rfl
@[simp] theorem setLast_drop : (x.setLast p).drop a = (x.drop a).setLast p := rfl
@[simp] theorem setLength_drop : (x.setLength k).drop a = (x.drop a).setLength k := rfl

@[simp] theorem put_self : (x.put a n).mem a = some n := Function.update_self ..

@[simp] theorem put_ne (h : b ≠ a) : (x.put a n).mem b = x.mem b := Function.update_of_ne h _ _

@[simp] theorem drop_self : (x.drop a).mem a = none := Function.update_self ..

@[simp] theorem drop_ne (h : b ≠ a) : (x.drop a).mem b = x.mem b := Function.update_of_ne h _ _

end Fields

/-- Arguments and local variables of the functions, and what they return. -/
structure Locals (δ : Type) where
  key : Key
  data : Option δ
  newnode : Option Addr
  /-- The argument `key` of `linked_list_create_node`. -/
  newKey : Key
  f : Option Addr
  runner : Option Addr
  firstPtr : Option Addr
  head : Option Addr
  keySaved : Key
  dataReturn : Option δ
  /-- What is stored in `*key`. -/
  keyOut : Option Key
  /-- What is returned. -/
  ret : Option δ

section Variables

variable (l : Locals δ)

def Locals.setNewnode (a : Addr) (k : Key) : Locals δ := { l with newnode := some a, newKey := k }

def Locals.setF (p : Option Addr) : Locals δ := { l with f := p }

def Locals.setRunner (p : Option Addr) : Locals δ := { l with runner := p }

def Locals.setFirstPtr (p : Option Addr) : Locals δ := { l with firstPtr := p }

def Locals.setHead (p : Option Addr) : Locals δ := { l with head := p }

def Locals.setData (d : Option δ) : Locals δ := { l with data := d }

def Locals.setKeySaved (k : Key) : Locals δ := { l with keySaved := k }

def Locals.setDataReturn (d : Option δ) : Locals δ := { l with dataReturn := d }

def Locals.setKeyOut (k : Key) : Locals δ := { l with keyOut := some k }

def Locals.setRet (d : Option δ) : Locals δ := { l with ret := d }

end Variables

/-- Code on the local variables and the list. -/
abbrev Code (δ : Type) : Type := Cmd (Locals δ × Lst δ)

/-- `newnode = linked_list_create_node(key, data)`: `kmalloc` finds a free address. -/
def linkedListCreateNode (key : Locals δ → Lst δ → Option Key) : Code δ :=
  .pick fun (l, x) (l', x') => ∃ a k, x.mem a = none ∧ key l x = some k ∧
    l' = l.setNewnode a k ∧
    x' = x.put a { prev := none, next := none, key := k, data := l.data }

/-- `thread_yield()` under a condition on the number of the test. -/
def threadYield : Code δ := .stmt some

/-- `list -> first = newnode`. -/
def setFirst : Code δ := .stmt fun (l, x) => some (l, x.setFirst l.newnode)

/-- `list -> last = newnode`. -/
def setLast : Code δ := .stmt fun (l, x) => some (l, x.setLast l.newnode)

/-- `list -> length ++`. -/
def incrLength : Code δ := .stmt fun (l, x) => some (l, x.setLength (x.length + 1))

/-! ## os161-dvz-main -/

namespace Dvz

/-- `linked_list_prepend`, between the calls on the lock. -/
def linkedListPrepend : Code δ :=
  .block
    [ .stmt fun (l, x) => some (l.setF x.first, x),
      .ite (fun (_, x) => some x.first.isNone)
        (.block
          [ threadYield,
            linkedListCreateNode fun _ _ => some 0,
            setFirst,
            setLast ])
        (.block
          [ linkedListCreateNode fun l x => (x.node l.f).map fun n => n.key - 1,
            -- newnode -> next = list -> first
            .stmt fun (l, x) => (x.modify l.newnode fun n => n.setNext x.first).map (l, ·),
            -- f -> prev = newnode
            .stmt fun (l, x) => (x.modify l.f fun n => n.setPrev l.newnode).map (l, ·),
            setFirst ]),
      incrLength ]

/-- `while ((f -> next != NULL) && (f -> next -> key <= newnode -> key))` in
`linked_list_insert`. -/
def insertLoop : Code δ :=
  .loop
    (fun (l, x) => do
      let m ← x.node l.f
      if m.next.isNone then some false
      else do
        let c ← x.node m.next
        let n ← x.node l.newnode
        some (c.key.sle n.key))
    (.stmt fun (l, x) => (x.node l.f).map fun m => (l.setF m.next, x))

/-- The new node is linked in before the first one. -/
def insertFront : Code δ :=
  .block
    [ .stmt fun (l, x) => (x.modify l.newnode fun n => n.setNext l.f).map (l, ·),
      .stmt fun (l, x) => (x.modify l.f fun n => n.setPrev l.newnode).map (l, ·),
      threadYield,
      setFirst ]

/-- The new node is linked in behind the node at which the loop has stopped. -/
def insertBehind : Code δ :=
  .block
    [ insertLoop,
      -- newnode -> next = f -> next
      .stmt fun (l, x) => do
        let m ← x.node l.f
        (x.modify l.newnode fun n => n.setNext m.next).map (l, ·),
      -- newnode -> prev = f
      .stmt fun (l, x) => (x.modify l.newnode fun n => n.setPrev l.f).map (l, ·),
      -- f -> next = newnode
      .stmt fun (l, x) => (x.modify l.f fun n => n.setNext l.newnode).map (l, ·),
      -- newnode -> next == NULL
      .ite (fun (l, x) => (x.node l.newnode).map fun n => n.next.isNone) setLast .skip ]

/-- `linked_list_insert`. -/
def linkedListInsert : Code δ :=
  .block
    [ .stmt fun (l, x) => some (l.setF x.first, x),
      threadYield,
      .ite (fun (l, _) => some l.f.isNone)
        (.block
          [ linkedListCreateNode fun l _ => some l.key,
            setFirst,
            setLast ])
        (.block
          [ linkedListCreateNode fun l _ => some l.key,
            -- newnode -> key <= f -> key
            .ite
              (fun (l, x) => do
                let n ← x.node l.newnode
                let m ← x.node l.f
                some (n.key.sle m.key))
              insertFront
              insertBehind ]),
      incrLength ]

/-- `linked_list_remove_head`. -/
def linkedListRemoveHead : Code δ :=
  .ite (fun (_, x) => some x.first.isSome)
    (.block
      [ .stmt fun (l, x) => some (l.setFirstPtr x.first, x),
        .stmt fun (l, x) => (x.node l.firstPtr).map fun n => (l.setDataReturn n.data, x),
        .stmt fun (l, x) => (x.node l.firstPtr).map fun n => (l.setKeySaved n.key, x),
        threadYield,
        -- list -> first = first_ptr -> next
        .stmt fun (l, x) => (x.node l.firstPtr).map fun n => (l, x.setFirst n.next),
        -- list -> first -> prev = NULL
        .ite (fun (_, x) => some x.first.isSome)
          (.stmt fun (l, x) => (x.modify x.first fun n => n.setPrev none).map (l, ·))
          .skip,
        .stmt fun (l, x) => some (l, x.setLength (x.length - 1)),
        .stmt fun (l, x) => some (l.setKeyOut l.keySaved, x),
        .stmt fun (l, x) => (x.kfree l.firstPtr).map (l, ·),
        .ite (fun (_, x) => some x.first.isNone)
          (.stmt fun (l, x) => some (l, x.setLast none))
          .skip,
        .stmt fun (l, x) => some (l.setRet l.dataReturn, x) ])
    (.stmt fun (l, x) => some (l.setRet none, x))

end Dvz

/-! ## os161-vud-proj1-proj2 -/

namespace Vud

/-- `linked_list_prepend`. -/
def linkedListPrepend : Code δ :=
  .block
    [ .stmt fun (l, x) => some (l.setF x.first, x),
      .ite (fun (_, x) => some x.first.isNone)
        (.block
          [ threadYield,
            linkedListCreateNode fun _ _ => some 0,
            setFirst,
            setLast ])
        (.block
          [ linkedListCreateNode fun l x => (x.node l.f).map fun n => n.key - 1,
            .stmt fun (l, x) => (x.modify l.newnode fun n => n.setNext x.first).map (l, ·),
            threadYield,
            .stmt fun (l, x) => (x.modify l.f fun n => n.setPrev l.newnode).map (l, ·),
            setFirst ]),
      incrLength ]

/-- `while (runner != NULL && runner->key < key)` in `linked_list_insert`. -/
def insertLoop : Code δ :=
  .loop
    (fun (l, x) =>
      if l.runner.isNone then some false else (x.node l.runner).map fun n => n.key.slt l.key)
    (.stmt fun (l, x) => (x.node l.runner).map fun n => (l.setRunner n.next, x))

/-- `if (runner == NULL)` in `linked_list_insert`: the new node is linked in. -/
def insertLink : Code δ :=
  .ite (fun (l, _) => some l.runner.isNone)
    (.block
      [ -- newnode->prev = list->last
        .stmt fun (l, x) => (x.modify l.newnode fun n => n.setPrev x.last).map (l, ·),
        .ite (fun (_, x) => some x.last.isSome)
          (.stmt fun (l, x) => (x.modify x.last fun n => n.setNext l.newnode).map (l, ·))
          setFirst,
        setLast ])
    (.block
      [ -- newnode->prev = runner->prev
        .stmt fun (l, x) => do
          let r ← x.node l.runner
          (x.modify l.newnode fun n => n.setPrev r.prev).map (l, ·),
        .stmt fun (l, x) => (x.modify l.newnode fun n => n.setNext l.runner).map (l, ·),
        -- runner->prev != NULL
        .ite (fun (l, x) => (x.node l.runner).map fun r => r.prev.isSome)
          (.stmt fun (l, x) => do
            let r ← x.node l.runner
            (x.modify r.prev fun n => n.setNext l.newnode).map (l, ·))
          setFirst,
        .stmt fun (l, x) => (x.modify l.runner fun n => n.setPrev l.newnode).map (l, ·) ])

/-- `linked_list_insert`. -/
def linkedListInsert : Code δ :=
  .block
    [ .stmt fun (l, x) => some (l.setRunner x.first, x),
      insertLoop,
      threadYield,
      linkedListCreateNode fun l _ => some l.key,
      insertLink,
      incrLength ]

/-- `linked_list_remove_head`. -/
def linkedListRemoveHead : Code δ :=
  .block
    [ .stmt fun (l, x) => some (l.setHead x.first, x),
      threadYield,
      .ite (fun (l, _) => some l.head.isNone)
        (.stmt fun (l, x) => some (l.setRet none, x))
        (.block
          [ .ite (fun (l, x) => some (l.head == x.last))
              (.stmt fun (l, x) => some (l, x.setLast none))
              -- head -> next -> prev = NULL
              (.stmt fun (l, x) => do
                let n ← x.node l.head
                (x.modify n.next fun m => m.setPrev none).map (l, ·)),
            threadYield,
            .stmt fun (l, x) => (x.node l.head).map fun n => (l, x.setFirst n.next),
            .stmt fun (l, x) => (x.node l.head).map fun n => (l.setKeyOut n.key, x),
            .stmt fun (l, x) => (x.node l.head).map fun n => (l.setData n.data, x),
            .stmt fun (l, x) => some (l, x.setLength (x.length - 1)),
            .stmt fun (l, x) => (x.kfree l.head).map (l, ·),
            .stmt fun (l, x) => some (l.setRet l.data, x) ]) ]

end Vud

/-! ## Threads -/

/-- A call of one of the functions. -/
inductive Call (δ : Type) where
  | prepend (data : Option δ)
  | insert (key : Key) (data : Option δ)
  | removeHead
  deriving DecidableEq, Repr

/-- A call that has returned: the node that has been made, or the result of
`linked_list_remove_head` and what it has stored in `*key`. -/
inductive Event (δ : Type) where
  | prepend (key : Key) (data : Option δ)
  | insert (key : Key) (data : Option δ)
  | removeHead (ret : Option δ) (key : Option Key)
  deriving DecidableEq, Repr

/-- The code of a function. -/
def Call.code (v : Version) (c : Call δ) : Code δ :=
  match v, c with
  | .dvz, .prepend _ => Dvz.linkedListPrepend
  | .dvz, .insert _ _ => Dvz.linkedListInsert
  | .dvz, .removeHead => Dvz.linkedListRemoveHead
  | .vud, .prepend _ => Vud.linkedListPrepend
  | .vud, .insert _ _ => Vud.linkedListInsert
  | .vud, .removeHead => Vud.linkedListRemoveHead

/-- Local variables at the beginning of a function. -/
def locals (key : Key) (data : Option δ) : Locals δ :=
  { key := key, data := data, newnode := none, newKey := 0, f := none, runner := none
    firstPtr := none, head := none, keySaved := 0, dataReturn := none, keyOut := none, ret := none }

/-- The arguments. -/
def Call.args : Call δ → Locals δ
  | .prepend data => locals 0 data
  | .insert key data => locals key data
  | .removeHead => locals 0 none

/-- What has happened when the function returns with the local variables `l`. -/
def Call.event (l : Locals δ) : Call δ → Event δ
  | .prepend data => .prepend l.newKey data
  | .insert key data => .insert key data
  | .removeHead => .removeHead l.ret l.keyOut

/-- The call that an event belongs to. -/
def Event.call : Event δ → Call δ
  | .prepend _ data => .prepend data
  | .insert key data => .insert key data
  | .removeHead _ _ => .removeHead

theorem call_event (c : Call δ) (l : Locals δ) : (c.event l).call = c := by cases c <;> rfl

/-- The list, and the calls that have completed their critical sections, in this order. -/
structure Shared (δ : Type) where
  list : Lst δ
  log : List (Event δ)

/-- A thread in no call, before the critical section of a call, or in it. -/
inductive Point (δ : Type) where
  | out
  | enter (c : Call δ)
  | running (c : Call δ) (code : Code δ) (l : Locals δ)

/-- Steps between the calls on the lock. -/
inductive Runs : Point δ → Shared δ → Point δ → Shared δ → Prop where
  | call (c : Call δ) (x : Shared δ) : Runs .out x (.enter c) x
  | small {c : Call δ} {code code' : Code δ} {l l' : Locals δ} {x : Shared δ} {y : Lst δ} :
      Small code (l, x.list) code' (l', y) →
      Runs (.running c code l) x (.running c code' l') { x with list := y }

/-- Calls on the lock. -/
inductive Calls (v : Version) : Point δ → Req Unit Empty → Point δ → Prop where
  | acquire (c : Call δ) : Calls v (.enter c) (.acquire ()) (.running c (c.code v) c.args)
  | release (c : Call δ) (l : Locals δ) : Calls v (.running c .skip l) (.release ()) .out

/-- At its end a critical section is noted. -/
def note (x : Shared δ) : Point δ → Req Unit Empty → Shared δ
  | .running c _ l, .release _ => { x with log := x.log ++ [c.event l] }
  | _, _ => x

/-- The points at which a thread has the lock. -/
def Point.locked : Point δ → Bool
  | .out | .enter _ => false
  | .running _ _ _ => true

/-- Threads that use the list. -/
def listUsers (v : Version) (τ δ : Type) : Client τ Unit Empty (Shared δ) (Point δ) where
  start := .out
  runs _ := Runs
  calls := Calls v
  effect _ k r x := note x k r
  owns k _ := k.locked
  owns_start _ := rfl
  owns_runs _ _ _ _ _ h := by cases h <;> rfl
  owns_calls _ _ _ h := by
    cases h
    all_goals refine ⟨rfl, funext fun ℓ => ?_⟩
    all_goals rfl

end Os161.LinkedList

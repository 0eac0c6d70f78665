import Os161.Lib.Calls
import Os161.Lib.DoubleLinks

set_option autoImplicit false

/-!
# Thread lists

`kern/thread/threadlist.c` and `kern/include/threadlist.h`. A thread list has two nodes of its own,
`tl_head` and `tl_tail`, that are always on the list, and every thread has one node, `t_listnode`.
The functions rewrite the links of the nodes; here they run on a memory that holds the nodes of all
lists and all threads.
-/

namespace Os161.Threadlist

open Os161.Lib.Calls
open Os161.Lib.DoubleLinks

/-- The address of a thread list or of a thread; it is not `NULL`. -/
abbrev Pointer : Type := { p : UInt32 // p ≠ 0 }

/-- `struct threadlistnode *`, by the object that the node is part of. -/
inductive Node where
  | tlHead (tl : Pointer)
  | tlTail (tl : Pointer)
  | tListnode (t : Pointer)
  deriving DecidableEq

/-- The nodes of all threads and thread lists: `next` is `tln_next`, `prev` is `tln_prev`. -/
structure Memory extends Links Node where
  tlnSelf : Node → Option Pointer
  tlCount : Pointer → UInt32

inductive Panic where
  /-- A failed `KASSERT` or `DEBUGASSERT`. -/
  | kassert
  /-- An access through `NULL`. -/
  | fault
  /-- The fuel of a loop has run out. -/
  | loops
  deriving DecidableEq

abbrev ListCall (α : Type) : Type := Call Memory Panic Empty α

def kassert (c : Prop) [Decidable c] : ListCall Unit := if c then pure () else halt .kassert

/-- The node that a pointer leads to. -/
def deref : Option Node → ListCall Node
  | some n => pure n
  | none => halt .fault

def setNext (n : Node) (p : Option Node) : ListCall Unit :=
  modify fun m => { m with next := Function.update m.next n p }

def setPrev (n : Node) (p : Option Node) : ListCall Unit :=
  modify fun m => { m with prev := Function.update m.prev n p }

def setSelf (n : Node) (p : Option Pointer) : ListCall Unit :=
  modify fun m => { m with tlnSelf := Function.update m.tlnSelf n p }

def setCount (tl : Pointer) (c : UInt32) : ListCall Unit :=
  modify fun m => { m with tlCount := Function.update m.tlCount tl c }

/-! ## The functions of the source -/

/-- `threadlistnode_init(&t->t_listnode, t)`. -/
def threadlistnodeInit (t : Pointer) : ListCall Unit := do
  setNext (.tListnode t) none
  setPrev (.tListnode t) none
  setSelf (.tListnode t) (some t)

/-- `threadlistnode_cleanup(&t->t_listnode)`. -/
def threadlistnodeCleanup (t : Pointer) : ListCall Unit := do
  kassert ((← get).next (.tListnode t) = none)
  kassert ((← get).prev (.tListnode t) = none)
  kassert ((← get).tlnSelf (.tListnode t) ≠ none)

def threadlistInit (tl : Pointer) : ListCall Unit := do
  setNext (.tlHead tl) (some (.tlTail tl))
  setPrev (.tlHead tl) none
  setNext (.tlTail tl) none
  setPrev (.tlTail tl) (some (.tlHead tl))
  setSelf (.tlHead tl) none
  setSelf (.tlTail tl) none
  setCount tl 0

def threadlistIsempty (tl : Pointer) : ListCall Bool := do
  return (← get).tlCount tl = 0

def threadlistCleanup (tl : Pointer) : ListCall Unit := do
  kassert ((← get).next (.tlHead tl) = some (.tlTail tl))
  kassert ((← get).prev (.tlHead tl) = none)
  kassert ((← get).next (.tlTail tl) = none)
  kassert ((← get).prev (.tlTail tl) = some (.tlHead tl))
  kassert ((← get).tlnSelf (.tlHead tl) = none)
  kassert ((← get).tlnSelf (.tlTail tl) = none)
  kassert (← threadlistIsempty tl)
  kassert ((← get).tlCount tl = 0)

def threadlistInsertafternode (onlist : Node) (t : Pointer) : ListCall Unit := do
  let addee := Node.tListnode t
  kassert ((← get).prev addee = none)
  kassert ((← get).next addee = none)
  setPrev addee (some onlist)
  setNext addee ((← get).next onlist)
  setNext (← deref ((← get).prev addee)) (some addee)
  setPrev (← deref ((← get).next addee)) (some addee)

def threadlistInsertbeforenode (t : Pointer) (onlist : Node) : ListCall Unit := do
  let addee := Node.tListnode t
  kassert ((← get).prev addee = none)
  kassert ((← get).next addee = none)
  setPrev addee ((← get).prev onlist)
  setNext addee (some onlist)
  setNext (← deref ((← get).prev addee)) (some addee)
  setPrev (← deref ((← get).next addee)) (some addee)

def threadlistRemovenode (tln : Node) : ListCall Unit := do
  kassert ((← get).prev tln ≠ none)
  kassert ((← get).next tln ≠ none)
  setNext (← deref ((← get).prev tln)) ((← get).next tln)
  setPrev (← deref ((← get).next tln)) ((← get).prev tln)
  setPrev tln none
  setNext tln none

/-- `tl->tl_count++`. -/
def countUp (tl : Pointer) : ListCall Unit := do
  setCount tl ((← get).tlCount tl + 1)

/-- `tl->tl_count--`, with the assertion in front of it. -/
def countDown (tl : Pointer) : ListCall Unit := do
  kassert ((← get).tlCount tl > 0)
  setCount tl ((← get).tlCount tl - 1)

def threadlistAddhead (tl t : Pointer) : ListCall Unit := do
  threadlistInsertafternode (.tlHead tl) t
  countUp tl

def threadlistAddtail (tl t : Pointer) : ListCall Unit := do
  threadlistInsertbeforenode t (.tlTail tl)
  countUp tl

def threadlistRemhead (tl : Pointer) : ListCall (Option Pointer) := do
  let tln ← deref ((← get).next (.tlHead tl))
  if (← get).next tln = none then
    return none
  threadlistRemovenode tln
  countDown tl
  return (← get).tlnSelf tln

def threadlistRemtail (tl : Pointer) : ListCall (Option Pointer) := do
  let tln ← deref ((← get).prev (.tlTail tl))
  if (← get).prev tln = none then
    return none
  threadlistRemovenode tln
  countDown tl
  return (← get).tlnSelf tln

def threadlistInsertafter (tl onlist addee : Pointer) : ListCall Unit := do
  threadlistInsertafternode (.tListnode onlist) addee
  countUp tl

def threadlistInsertbefore (tl addee onlist : Pointer) : ListCall Unit := do
  threadlistInsertbeforenode addee (.tListnode onlist)
  countUp tl

def threadlistRemove (tl t : Pointer) : ListCall Unit := do
  threadlistRemovenode (.tListnode t)
  countDown tl

/-- `THREADLIST_FORALL` behind the node `n`: the threads that it visits. -/
def forallBehind : Nat → Node → ListCall (List Pointer)
  | 0, _ => halt .loops
  | fuel + 1, n => do
      match (← get).tlnSelf (← deref ((← get).next n)) with
      | none => return []
      | some itervar => return itervar :: (← forallBehind fuel (.tListnode itervar))

/-- `THREADLIST_FORALL_REV` before the node `n`: the threads that it visits. -/
def forallBefore : Nat → Node → ListCall (List Pointer)
  | 0, _ => halt .loops
  | fuel + 1, n => do
      match (← get).tlnSelf (← deref ((← get).prev n)) with
      | none => return []
      | some itervar => return itervar :: (← forallBefore fuel (.tListnode itervar))

def threadlistForall (fuel : Nat) (tl : Pointer) : ListCall (List Pointer) :=
  forallBehind fuel (.tlHead tl)

def threadlistForallRev (fuel : Nat) (tl : Pointer) : ListCall (List Pointer) :=
  forallBefore fuel (.tlTail tl)

/-- A call of one of the functions. -/
inductive Op where
  | init (tl : Pointer)
  | cleanup (tl : Pointer)
  | nodeInit (t : Pointer)
  | nodeCleanup (t : Pointer)
  | addhead (tl t : Pointer)
  | addtail (tl t : Pointer)
  | insertafter (tl onlist addee : Pointer)
  | insertbefore (tl addee onlist : Pointer)
  | remhead (tl : Pointer)
  | remtail (tl : Pointer)
  | remove (tl t : Pointer)
  deriving DecidableEq

/-- What the function does; the functions without a result count as returning `NULL`. -/
def Op.run : Op → ListCall (Option Pointer)
  | .init tl => do threadlistInit tl; return none
  | .cleanup tl => do threadlistCleanup tl; return none
  | .nodeInit t => do threadlistnodeInit t; return none
  | .nodeCleanup t => do threadlistnodeCleanup t; return none
  | .addhead tl t => do threadlistAddhead tl t; return none
  | .addtail tl t => do threadlistAddtail tl t; return none
  | .insertafter tl onlist addee => do threadlistInsertafter tl onlist addee; return none
  | .insertbefore tl addee onlist => do threadlistInsertbefore tl addee onlist; return none
  | .remhead tl => threadlistRemhead tl
  | .remtail tl => threadlistRemtail tl
  | .remove tl t => do threadlistRemove tl t; return none

/-- One call after the other, with the results. -/
def runOps : List Op → ListCall (List (Option Pointer))
  | [] => return []
  | op :: ops => do
      let r ← op.run
      return r :: (← runOps ops)

end Os161.Threadlist

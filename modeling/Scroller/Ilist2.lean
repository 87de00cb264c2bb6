import Scroller.Basic
import Mathlib.Logic.Function.Basic

/-!
# The index-based doubly linked list

`lib/core/src/ilist2.c`. The nodes lie in an array of `listsz`; free nodes are linked through `next`
only. The `-1` of an absent index is `none`. A call that follows an absent index leaves the array.
-/

namespace Scroller

structure Ilist2.Node (V : Type) where
  data : V
  prev : Option Nat
  next : Option Nat

structure Ilist2 (V : Type) where
  listsz : Nat
  freelistHead : Option Nat
  frontIdx : Option Nat
  backIdx : Option Nat
  nodes : Nat → Ilist2.Node V

namespace Ilist2

variable {V : Type}

/-! ### Access to the nodes -/

def putPrev (list : Ilist2 V) (idx : Nat) (prev : Option Nat) : Ilist2 V :=
  { list with nodes := Function.update list.nodes idx { list.nodes idx with prev := prev } }

def putNext (list : Ilist2 V) (idx : Nat) (next : Option Nat) : Ilist2 V :=
  { list with nodes := Function.update list.nodes idx { list.nodes idx with next := next } }

def putData (list : Ilist2 V) (idx : Nat) (data : V) : Ilist2 V :=
  { list with nodes := Function.update list.nodes idx { list.nodes idx with data := data } }

/-- Every access through an index has to stay inside the array. -/
def checked {α : Type} (list : Ilist2 V) (idx : Nat) (a : α) : Except Fault α :=
  if idx < list.listsz then .ok a else .error .outOfBounds

def load (list : Ilist2 V) (idx : Nat) : Except Fault (Node V) :=
  list.checked idx (list.nodes idx)

def setPrev (list : Ilist2 V) (idx : Nat) (prev : Option Nat) : Except Fault (Ilist2 V) :=
  list.checked idx (list.putPrev idx prev)

def setNext (list : Ilist2 V) (idx : Nat) (next : Option Nat) : Except Fault (Ilist2 V) :=
  list.checked idx (list.putNext idx next)

def setData (list : Ilist2 V) (idx : Nat) (data : V) : Except Fault (Ilist2 V) :=
  list.checked idx (list.putData idx data)

/-- The offset `idx * nodesz` of an index. -/
def at? (idx : Option Nat) : Except Fault Nat :=
  match idx with
  | none => .error .outOfBounds
  | some idx => .ok idx

/-! ### The operations -/

/-- `ilist2_clear`. -/
def clear (list : Ilist2 V) : Ilist2 V :=
  { list with
    backIdx := none
    frontIdx := none
    nodes := fun i =>
      { list.nodes i with
        prev := none
        next := if i + 1 = list.listsz then none else some (i + 1) }
    freelistHead := if list.listsz = 0 then none else some 0 }

/-- `ilist2_init_fn` over memory that holds the given nodes. -/
def initFn (nodes : Nat → Node V) (listsz : Nat) : Ilist2 V :=
  clear { listsz, freelistHead := none, frontIdx := none, backIdx := none, nodes }

/-- `ilist2_pop_back`. -/
def popBack (list : Ilist2 V) : Except Fault (Ilist2 V × V) := do
  let backIdx ← at? list.backIdx
  let oldNode ← list.load backIdx
  let list ← list.setNext backIdx list.freelistHead
  match oldNode.prev with
  | some prevIdx => do
      let list ← list.setNext prevIdx none
      return ({ list with freelistHead := some backIdx, backIdx := some prevIdx }, oldNode.data)
  | none =>
      return ({ list with freelistHead := some backIdx, frontIdx := none, backIdx := none },
        oldNode.data)

/-- `ilist2_pop_front`. -/
def popFront (list : Ilist2 V) : Except Fault (Ilist2 V × V) := do
  let frontIdx ← at? list.frontIdx
  let oldNode ← list.load frontIdx
  let list ← list.setNext frontIdx list.freelistHead
  match oldNode.next with
  | some nextIdx => do
      let list ← list.setPrev nextIdx none
      return ({ list with freelistHead := some frontIdx, frontIdx := some nextIdx }, oldNode.data)
  | none =>
      return ({ list with freelistHead := some frontIdx, backIdx := none, frontIdx := none },
        oldNode.data)

/-- `ilist2_touch_new_fn`: the first node of an empty list. -/
def touchNew (list : Ilist2 V) (newIdx : Nat) : Except Fault (Ilist2 V) := do
  let newNode ← list.load newIdx
  let list := { list with freelistHead := newNode.next }
  let list ← list.setPrev newIdx none
  let list ← list.setNext newIdx none
  return { list with backIdx := some newIdx, frontIdx := some newIdx }

/-- `ilist2_touch_back_fn`. -/
def touchBack (list : Ilist2 V) : Except Fault (Ilist2 V × Option Nat) :=
  match list.freelistHead with
  | none => return (list, none)
  | some newIdx =>
      if list.frontIdx = none then do
        return (← list.touchNew newIdx, some newIdx)
      else do
        let backIdx ← at? list.backIdx
        let list ← list.setNext backIdx (some newIdx)
        let newNode ← list.load newIdx
        let list := { list with freelistHead := newNode.next }
        let list ← list.setPrev newIdx list.backIdx
        let list ← list.setNext newIdx none
        return ({ list with backIdx := some newIdx }, some newIdx)

/-- `ilist2_touch_front_fn`. -/
def touchFront (list : Ilist2 V) : Except Fault (Ilist2 V × Option Nat) :=
  match list.freelistHead with
  | none => return (list, none)
  | some newIdx =>
      if list.frontIdx = none then do
        return (← list.touchNew newIdx, some newIdx)
      else do
        let frontIdx ← at? list.frontIdx
        let list ← list.setPrev frontIdx (some newIdx)
        let newNode ← list.load newIdx
        let list := { list with freelistHead := newNode.next }
        let list ← list.setPrev newIdx none
        let list ← list.setNext newIdx list.frontIdx
        return ({ list with frontIdx := some newIdx }, some newIdx)

/-- What the macros `ilist2_put_back` and `ilist2_put_front` do with the touched node. -/
def putTouched (touched : Ilist2 V × Option Nat) (node : V) :
    Except Fault (Ilist2 V × Option Nat) :=
  match touched with
  | (list, none) => return (list, none)
  | (list, some idx) => do
      return (← list.setData idx node, some idx)

/-- The macro `ilist2_put_back`. -/
def putBack (list : Ilist2 V) (node : V) : Except Fault (Ilist2 V × Option Nat) := do
  putTouched (← list.touchBack) node

/-- The macro `ilist2_put_front`. -/
def putFront (list : Ilist2 V) (node : V) : Except Fault (Ilist2 V × Option Nat) := do
  putTouched (← list.touchFront) node

/-- The previous node, or `front_idx`, gets the next node of a node that moves to the back. -/
def linkNext (list : Ilist2 V) (prevIdx : Option Nat) (nextIdx : Nat) : Except Fault (Ilist2 V) :=
  match prevIdx with
  | some prevIdx => list.setNext prevIdx (some nextIdx)
  | none => return { list with frontIdx := some nextIdx }

/-- The next node, or `back_idx`, gets the previous node of a node that moves to the front. -/
def linkPrev (list : Ilist2 V) (nextIdx : Option Nat) (prevIdx : Nat) : Except Fault (Ilist2 V) :=
  match nextIdx with
  | some nextIdx => list.setPrev nextIdx (some prevIdx)
  | none => return { list with backIdx := some prevIdx }

/-- `ilist2_move_back_by_idx_fn`. -/
def moveBackByIdx (build : Build) (list : Ilist2 V) (idx : Option Nat) :
    Except Fault (Ilist2 V) := do
  let idx ← at? idx
  let node ← list.load idx
  build.assert (idx < list.listsz)
  match node.next with
  | none => return list
  | some nextIdx => do
      let list ← list.setPrev nextIdx node.prev
      let list ← list.linkNext node.prev nextIdx
      let list ← list.setNext (← at? list.backIdx) (some idx)
      let list ← list.setPrev idx list.backIdx
      let list ← list.setNext idx none
      return { list with backIdx := some idx }

/-- `ilist2_move_front_by_idx_fn`. -/
def moveFrontByIdx (build : Build) (list : Ilist2 V) (idx : Option Nat) :
    Except Fault (Ilist2 V) := do
  let idx ← at? idx
  let node ← list.load idx
  build.assert (idx < list.listsz)
  match node.prev with
  | none => return list
  | some prevIdx => do
      let list ← list.setNext prevIdx node.next
      let list ← list.linkPrev node.next prevIdx
      let list ← list.setPrev (← at? list.frontIdx) (some idx)
      let list ← list.setPrev idx none
      let list ← list.setNext idx list.frontIdx
      return { list with frontIdx := some idx }

end Ilist2

end Scroller

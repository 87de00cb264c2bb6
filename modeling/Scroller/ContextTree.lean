import Mathlib.Data.List.FinRange
import Mathlib.Logic.Function.Basic
import Scroller.Lib.Machine
import Scroller.Memory

/-!
# Trees of memory contexts

The links between the memory contexts of `lib/core/src/memory.c`. Contexts are told apart by the address they are
mapped to, which `mmap` may choose again after it was unmapped; `none` is `NULL`. A context is read and written only
while it is mapped. Its magic number never changes, and bump and linear contexts share what is below.
-/

namespace Scroller

/-- `CONTEXT_MAX_CHILDREN`. -/
def contextMaxChildren : Nat := 8

/-- The fields of a context. -/
@[ext]
structure ContextNode extends BumpContext where
  parent : Option Nat
  children : Fin contextMaxChildren → Option Nat

/-- The indices of the loops over `children`. -/
def contextSlots : List (Fin contextMaxChildren) := List.finRange contextMaxChildren

/-- The mapped contexts, and what lies at every address. -/
structure ContextHeap where
  mapped : List Nat
  node : Nat → ContextNode

namespace ContextHeap

/-- The start of a program. -/
def empty : ContextHeap := ⟨[], fun _ => ⟨⟨0, 0⟩, none, fun _ => none⟩⟩

/-- A use of a context reads its fields. -/
def load (heap : ContextHeap) (context : Nat) : Except Fault ContextNode :=
  if context ∈ heap.mapped then .ok (heap.node context) else .error .outOfBounds

/-- A change of the fields. -/
def store (heap : ContextHeap) (context : Nat) (f : ContextNode → ContextNode) : Except Fault ContextHeap := do
  let node ← heap.load context
  return { heap with node := Function.update heap.node context (f node) }

/-- `munmap`. -/
def munmap (heap : ContextHeap) (context : Nat) : ContextHeap :=
  { heap with mapped := heap.mapped.filter (· ≠ context) }

/-- `bump_context_create` and `linear_context_create`, where `mmap` returns this address; `none` is `MAP_FAILED`. -/
def create (build : Build) (heap : ContextHeap) (size : Nat) (ret : Option Nat) : ContextHeap × Option Nat :=
  match BumpContext.create build size, ret with
  | some context, some address =>
      (⟨address :: heap.mapped, Function.update heap.node address ⟨context, none, fun _ => none⟩⟩, some address)
  | _, _ => (heap, none)

/-- The assignment `children[i] = context`. -/
def setChild (i : Fin contextMaxChildren) (context : Option Nat) (node : ContextNode) : ContextNode :=
  { node with children := Function.update node.children i context }

/-- `bump_context_set_parent`. -/
def setParent (heap : ContextHeap) (context : Nat) (parent : Option Nat) : Except Fault ContextHeap :=
  heap.store context fun node => { node with parent }

/-- `bump_context_add_child`. -/
def addChild (heap : ContextHeap) (context child : Nat) : Except Fault (ContextHeap × Option Nat) := do
  let node ← heap.load context
  match contextSlots.find? fun i => node.children i = none with
  | none => return (heap, none)
  | some i => do
      let heap ← heap.store context (setChild i (some child))
      let heap ← heap.setParent child (some context)
      return (heap, some child)

/-- `bump_context_erase_child`; it returns 1 where the child is not found. -/
def eraseChild (heap : ContextHeap) (context child : Nat) : Except Fault (ContextHeap × Nat) := do
  let node ← heap.load context
  match contextSlots.find? fun i => node.children i = some child with
  | none => return (heap, 1)
  | some i => do
      let heap ← heap.store context (setChild i none)
      return (heap, 0)

/-- The loop that drops the children of a context, with the contexts that were unmapped in their order. The array is
read again in every round; `bump_context_reset` clears the slot behind the call. -/
def dropChildren (drop : ContextHeap → Nat → Except Fault (ContextHeap × List Nat)) (clear : Bool) (context : Nat) :
    List (Fin contextMaxChildren) → ContextHeap → Except Fault (ContextHeap × List Nat)
  | [], heap => return (heap, [])
  | i :: slots, heap => do
      let node ← heap.load context
      match node.children i with
      | none => dropChildren drop clear context slots heap
      | some child => do
          let (heap, dropped) ← drop heap child
          let heap ← (if clear then heap.store context (setChild i none) else pure heap)
          let (heap, rest) ← dropChildren drop clear context slots heap
          return (heap, dropped ++ rest)

/-- The context leaves the children of its parent. -/
def leave (heap : ContextHeap) (context : Nat) : (parent : Option Nat) → Except Fault ContextHeap
  | none => return heap
  | some parent => do
      let (heap, _) ← heap.eraseChild parent context
      return heap

/-- `bump_context_drop`, with the contexts that were unmapped in their order. Calls nest at most `depth` times. -/
def drop : (depth : Nat) → ContextHeap → Option Nat → Except Fault (ContextHeap × List Nat)
  | _, heap, none => return (heap, [])
  | 0, _, some _ => .error .diverges
  | depth + 1, heap, some context => do
      let (heap, dropped) ←
        dropChildren (fun heap child => drop depth heap (some child)) false context contextSlots heap
      let node ← heap.load context
      let heap ← heap.leave context node.parent
      return (heap.munmap context, dropped ++ [context])

/-- `bump_context_reset`, with the contexts that were unmapped in their order. -/
def reset (build : Build) (depth : Nat) (heap : ContextHeap) (context : Nat) :
    Except Fault (ContextHeap × List Nat) := do
  let heap ← heap.store context fun node => { node with toBumpContext := node.toBumpContext.reset build }
  dropChildren (fun heap child => drop depth heap (some child)) true context contextSlots heap

end ContextHeap

/-! ### Runs -/

inductive ContextCall where
  | create (size : Nat) (ret : Option Nat)
  | addChild (context child : Nat)
  | reset (context : Nat)
  | drop (context : Option Nat)
deriving DecidableEq, Repr

/-- What a call returns, or the contexts it unmapped. -/
inductive ContextReply where
  | context (ret : Option Nat)
  | dropped (contexts : List Nat)
deriving DecidableEq, Repr

namespace ContextHeap

/-- One call. No tree is higher than there are contexts, so the calls do not nest deeper. -/
def step (build : Build) (heap : ContextHeap) : ContextCall → Except Fault (ContextHeap × ContextReply)
  | .create size ret =>
      let (heap, ret) := heap.create build size ret
      return (heap, .context ret)
  | .addChild context child => do
      let (heap, ret) ← heap.addChild context child
      return (heap, .context ret)
  | .reset context => do
      let (heap, dropped) ← heap.reset build (heap.mapped.length + 1) context
      return (heap, .dropped dropped)
  | .drop context => do
      let (heap, dropped) ← drop (heap.mapped.length + 1) heap context
      return (heap, .dropped dropped)

end ContextHeap

end Scroller

import Mathlib.Data.UInt
import Scroller.Arrays
import Scroller.Lib.Machine

/-!
# Dynamic arrays over any allocator

`lib/core/src/array.c` where `my_alloc` and `my_realloc` come from outside: a call returns `NULL`, which is `none`
here, or a block of the requested size with some contents. The sizes are values of `size_t`.
-/

namespace Scroller

/-- An array with the number of bytes of its block. -/
structure HeapArray (T : Type) where
  room : Nat
  room_lt : room < 2 ^ 64
  size : Nat
  capacity : Nat
  items : Nat → T

namespace HeapArray

variable {T : Type}

/-- The size of a block for a number of elements. -/
def bytes (usersz capacity : Nat) : Nat := (sizeofArray + usersz * capacity) % 2 ^ 64

theorem bytes_lt (usersz capacity : Nat) : bytes usersz capacity < 2 ^ 64 := Nat.mod_lt _ (by decide)

/-- `array_create_fn`. -/
def create (usersz capacity : Nat) (answer : Option (Nat → T)) : Except Fault (Option (HeapArray T)) :=
  match answer with
  | none => return none
  | some items =>
      if sizeofArray ≤ bytes usersz capacity then
        return some ⟨bytes usersz capacity, bytes_lt usersz capacity, 0, capacity, items⟩
      else .error .outOfBounds

/-- A block that `my_realloc` returned for the capacity of the header. The elements that lie in both blocks are
kept, and the header has to lie in the new one. -/
def moved (usersz : Nat) (a : HeapArray T) (fresh : Nat → T) : Except Fault (HeapArray T) :=
  let room := bytes usersz a.capacity
  if sizeofArray ≤ room then
    return { a with
      room
      room_lt := bytes_lt usersz a.capacity
      items := fun i => if sizeofArray + usersz * (i + 1) ≤ min a.room room then a.items i else fresh i }
  else .error .outOfBounds

/-- `array_raise_fn`; `false` is `NULL`. -/
def raise (build : Build) (usersz : Nat) (a : Option (HeapArray T)) (answer : Option (Nat → T)) :
    Except Fault (Option (HeapArray T) × Bool) :=
  match a with
  | none => do
      build.assert False
      return (none, false)
  | some a =>
      if a.size = a.capacity then
        let a := { a with capacity := if a.capacity = 0 then 1 else a.capacity * 2 % 2 ^ 64 }
        match answer with
        | none => return (some a, false)
        | some fresh => do
            let a ← a.moved usersz fresh
            return (some { a with size := (a.size + 1) % 2 ^ 64 }, true)
      else return (some { a with size := (a.size + 1) % 2 ^ 64 }, true)

/-- `array_reduce_fn`; `none` is `NULL`. -/
def reduce (usersz : Nat) (a : HeapArray T) (answer : Option (Nat → T)) :
    Except Fault (Option (HeapArray T)) :=
  if a.size = 0 then return none
  else
    let a := { a with size := a.size - 1 }
    if a.size = a.capacity / 2 ∧ 4 < a.capacity then
      let a := { a with capacity := a.capacity / 2 }
      match answer with
      | none => return some a
      | some fresh => do
          let a ← a.moved usersz fresh
          return some a
    else return some a

/-- `array_back_ref(a) = v`. -/
def putBack (usersz : Nat) (a : HeapArray T) (v : T) : Except Fault (HeapArray T) :=
  if a.size ≠ 0 ∧ sizeofArray + usersz * a.size ≤ a.room then
    return { a with items := Function.update a.items (a.size - 1) v }
  else .error .outOfBounds

/-- `array_back`. -/
def back (usersz : Nat) (a : HeapArray T) : Except Fault T :=
  if a.size ≠ 0 ∧ sizeofArray + usersz * a.size ≤ a.room then return a.items (a.size - 1)
  else .error .outOfBounds

/-- The macro `array_put`; `false` is `NULL`. A new array is not full, so that the allocator is asked once. -/
def put (build : Build) (usersz : Nat) (a : Option (HeapArray T)) (v : T) (answer : Option (Nat → T)) :
    Except Fault (Option (HeapArray T) × Bool) := do
  let a ← if a.isNone then create usersz arrayDefaultCapacity answer else pure a
  match ← raise build usersz a answer with
  | (some a, true) => do
      let a ← a.putBack usersz v
      return (some a, true)
  | (a, _) => return (a, false)

/-- The macro `array_pop`. -/
def pop (usersz : Nat) (a : Option (HeapArray T)) (answer : Option (Nat → T)) :
    Except Fault (Option (HeapArray T) × T) :=
  match a with
  | none => .error .nullPointer
  | some a => do
      let v ← a.back usersz
      let a ← a.reduce usersz answer
      return (a, v)

/-- `array_clear`. -/
def clear (a : Option (HeapArray T)) : Option (HeapArray T) := a.map fun a => { a with size := 0 }

/-- The elements of an array. -/
def toList : Option (HeapArray T) → List T
  | none => []
  | some a => (List.range a.size).map a.items

end HeapArray

/-! ### Runs -/

/-- A call with the answer of the allocator, if it is asked. -/
inductive ArrayOp (T : Type) where
  | put (v : T) (answer : Option (Nat → T))
  | pop (answer : Option (Nat → T))
  | clear

/-- Whether a put returned an array, and the element that a pop returned. -/
inductive ArrayReply (T : Type) where
  | put (stored : Bool)
  | pop (v : T)
  | clear

def HeapArray.step {T : Type} (build : Build) (usersz : Nat) (a : Option (HeapArray T)) :
    ArrayOp T → Except Fault (Option (HeapArray T) × ArrayReply T)
  | .put v answer => do
      let (a, stored) ← put build usersz a v answer
      return (a, .put stored)
  | .pop answer => do
      let (a, v) ← pop usersz a answer
      return (a, .pop v)
  | .clear => return (clear a, .clear)

end Scroller

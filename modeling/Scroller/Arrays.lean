import Mathlib.Logic.Function.Basic
import Scroller.Memory

/-!
# Dynamic arrays

`lib/core/src/array.c` over a bump context: a block with a header and the items behind it, which grows by
doubling.
-/

namespace Scroller

def arrayDefaultCapacity : Nat := 128

/-- `sizeof(Array)`. -/
def sizeofArray : Nat := 24

/-- An array with the block it lies in. -/
structure DynArray (T : Type) where
  block : Block
  size : Nat
  capacity : Nat
  items : Nat → T

namespace DynArray

variable {T : Type}

/-- The items up to the size. -/
def toList (a : DynArray T) : List T := (List.range a.size).map a.items

/-- `array_create_fn` on memory with the given items. -/
def create (context : BumpContext) (items : Nat → T) (usersz capacity : Nat) :
    BumpContext × Option (DynArray T) :=
  match context.alloc (sizeofArray + usersz * capacity) with
  | (context, none) => (context, none)
  | (context, some block) => (context, some ⟨block, 0, capacity, items⟩)

/-- `array_clear`. -/
def clear (a : DynArray T) : DynArray T := { a with size := 0 }

/-- `array_raise_fn`; `false` is `NULL`. The header keeps the new capacity then too. -/
def raise (build : Build) (context : BumpContext) (usersz : Nat) (a : DynArray T) :
    Except Fault (BumpContext × DynArray T × Bool) :=
  if a.size = a.capacity then do
    let capacity := if a.capacity = 0 then 1 else a.capacity * 2
    match ← context.realloc build (some a.block) (sizeofArray + usersz * capacity) with
    | (context, none) => return (context, { a with capacity }, false)
    | (context, some block) =>
        return (context, { a with block, capacity, size := a.size + 1 }, true)
  else return (context, { a with size := a.size + 1 }, true)

/-- `a[i] = v`: the item has to lie in the region of the context. -/
def store (context : BumpContext) (usersz : Nat) (a : DynArray T) (i : Nat) (v : T) :
    Except Fault (DynArray T) :=
  if a.block.offs + sizeofArray + usersz * (i + 1) ≤ context.size then
    return { a with items := Function.update a.items i v }
  else .error .outOfBounds

theorem raise_room {build : Build} {context : BumpContext} {a : DynArray T} (hsize : a.size ≠ a.capacity)
    (usersz : Nat) :
    a.raise build context usersz = .ok (context, { a with size := a.size + 1 }, true) := by
  unfold raise
  rw [if_neg hsize]
  rfl

theorem raise_grown {build : Build} {context context' : BumpContext} {usersz : Nat} {a : DynArray T} {block : Block}
    (hsize : a.size = a.capacity) (hcapacity : a.capacity ≠ 0)
    (hrealloc : context.realloc build (some a.block) (sizeofArray + usersz * (a.capacity * 2))
      = .ok (context', some block)) :
    a.raise build context usersz
      = .ok (context', { a with block, capacity := a.capacity * 2, size := a.size + 1 }, true) := by
  unfold raise
  rw [if_pos hsize]
  simp only [if_neg hcapacity, hrealloc]
  rfl

theorem raise_failed {build : Build} {context context' : BumpContext} {usersz : Nat} {a : DynArray T}
    (hsize : a.size = a.capacity) (hcapacity : a.capacity ≠ 0)
    (hrealloc : context.realloc build (some a.block) (sizeofArray + usersz * (a.capacity * 2))
      = .ok (context', none)) :
    a.raise build context usersz = .ok (context', { a with capacity := a.capacity * 2 }, false) := by
  unfold raise
  rw [if_pos hsize]
  simp only [if_neg hcapacity, hrealloc]
  rfl

theorem size_raise {build : Build} {context context' : BumpContext} {usersz : Nat} {a a' : DynArray T} {raised : Bool}
    (h : a.raise build context usersz = .ok (context', a', raised)) : a'.size ≤ a.size + 1 := by
  unfold raise at h
  split at h
  · obtain ⟨⟨context₁, block⟩, -, h⟩ := bind_eq_ok.mp h
    cases block with
    | none =>
        cases h
        exact Nat.le_succ _
    | some block =>
        cases h
        exact Nat.le_refl _
  · cases h
    exact Nat.le_refl _

theorem length_toList (a : DynArray T) : a.toList.length = a.size := by
  rw [toList, List.length_map, List.length_range]

theorem toList_store (a : DynArray T) (v : T) :
    toList { a with size := a.size + 1, items := Function.update a.items a.size v } = a.toList ++ [v] := by
  unfold toList
  simp only [List.range_succ, List.map_append, List.map_cons, List.map_nil, Function.update_self]
  congr 1
  apply List.map_congr_left
  intro i hi
  exact Function.update_of_ne (Nat.ne_of_lt (List.mem_range.mp hi)) _ _

/-- The macro `array_put`; its value is not used. -/
def put (build : Build) (context : BumpContext) (items : Nat → T) (usersz : Nat)
    (a : Option (DynArray T)) (v : T) : Except Fault (BumpContext × Option (DynArray T)) :=
  let (context, a) :=
    match a with
    | none => create context items usersz arrayDefaultCapacity
    | some a => (context, some a)
  match a with
  | none => do
      build.assert False
      return (context, none)
  | some a => do
      match ← a.raise build context usersz with
      | (context, a, false) => return (context, some a)
      | (context, a, true) => do
          let a ← a.store context usersz (a.size - 1) v
          return (context, some a)

section

variable {build : Build} {context context' : BumpContext} {items : Nat → T} {usersz : Nat} {v : T}
  {a a' : DynArray T}

theorem put_raised (a' : DynArray T)
    (hraise : a.raise build context usersz = .ok (context', { a' with size := a.size + 1 }, true))
    (hitems : a'.items = a.items)
    (hfits : a'.block.offs + sizeofArray + usersz * (a.size + 1) ≤ context'.size) :
    put build context items usersz (some a) v = .ok (context',
      some { a' with size := a.size + 1, items := Function.update a.items a.size v }) := by
  unfold put store
  dsimp only [bind, Except.bind]
  rw [hraise]
  dsimp only
  rw [if_pos (by exact hfits), hitems]
  rfl

theorem put_dropped (hraise : a.raise build context usersz = .ok (context', a', false)) :
    put build context items usersz (some a) v = .ok (context', some a') := by
  unfold put
  dsimp only [bind, Except.bind]
  rw [hraise]
  rfl

theorem put_some_eq_ok {r : Option (DynArray T)} (h : put build context items usersz (some a) v = .ok (context', r)) :
    ∃ a', r = some a' ∧ a'.size ≤ a.size + 1 := by
  obtain ⟨⟨context₁, a₁, raised⟩, hraise, h⟩ := bind_eq_ok.mp h
  have hsize := size_raise hraise
  cases raised with
  | false =>
      cases h
      exact ⟨a₁, rfl, hsize⟩
  | true =>
      obtain ⟨a₂, hstore, h⟩ := bind_eq_ok.mp h
      cases h
      unfold store at hstore
      split at hstore
      · cases hstore
        exact ⟨_, rfl, hsize⟩
      · cases hstore

theorem put_none_eq (build : Build) (context : BumpContext) (items : Nat → T) (usersz : Nat) (v : T) :
    put build context items usersz none v
      = match create context items usersz arrayDefaultCapacity with
        | (context, none) => (do
            build.assert False
            return (context, none))
        | (context, some a) => put build context items usersz (some a) v := by
  unfold put
  dsimp only
  generalize create context items usersz arrayDefaultCapacity = created
  obtain ⟨context₁, a⟩ := created
  cases a with
  | none => rfl
  | some a => rfl

theorem create_eq (context : BumpContext) (items : Nat → T) (usersz capacity : Nat) :
    create context items usersz capacity
      = ((context.alloc (sizeofArray + usersz * capacity)).1,
        (context.alloc (sizeofArray + usersz * capacity)).2.map fun block => ⟨block, 0, capacity, items⟩) := by
  unfold create
  generalize context.alloc (sizeofArray + usersz * capacity) = allocated
  obtain ⟨context₁, block⟩ := allocated
  cases block with
  | none => rfl
  | some block => rfl

end

end DynArray

end Scroller

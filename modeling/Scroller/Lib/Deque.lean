import Mathlib.Data.List.Basic

/-!
# Bounded deques with move

A deque of at most `n` nodes. A node has an index below `n`, which it keeps as long as it is in the deque,
and data. What a new node holds, and which of the free indices it gets, is left open.
-/

namespace Deque

variable {V : Type*}

inductive Op (V : Type*) where
  | touchBack
  | touchFront
  | popBack
  | popFront
  | moveBack (idx : Nat)
  | moveFront (idx : Nat)
  | write (idx : Nat) (v : V)
  | clear

/-- `touched none` is a touch of a full deque. -/
inductive Answer (V : Type*) where
  | touched (idx : Option Nat)
  | popped (v : V)
  | done

/-- Nodes are popped from a deque that has some, and moved and written where they are in it. -/
def Op.Allowed (l : List (Nat × V)) : Op V → Prop
  | .touchBack | .touchFront | .clear => True
  | .popBack | .popFront => l ≠ []
  | .moveBack idx | .moveFront idx | .write idx _ => idx ∈ l.map Prod.fst

inductive Step (n : Nat) : List (Nat × V) → Op V → Answer V → List (Nat × V) → Prop
  | touchBack {l : List (Nat × V)} {idx : Nat} (v : V) (hroom : l.length < n) (hidx : idx < n)
      (hfree : idx ∉ l.map Prod.fst) : Step n l .touchBack (.touched (some idx)) (l ++ [(idx, v)])
  | touchBackFull {l : List (Nat × V)} (hfull : l.length = n) : Step n l .touchBack (.touched none) l
  | touchFront {l : List (Nat × V)} {idx : Nat} (v : V) (hroom : l.length < n) (hidx : idx < n)
      (hfree : idx ∉ l.map Prod.fst) : Step n l .touchFront (.touched (some idx)) ((idx, v) :: l)
  | touchFrontFull {l : List (Nat × V)} (hfull : l.length = n) : Step n l .touchFront (.touched none) l
  | popBack {l : List (Nat × V)} {idx : Nat} {v : V} : Step n (l ++ [(idx, v)]) .popBack (.popped v) l
  | popFront {l : List (Nat × V)} {idx : Nat} {v : V} : Step n ((idx, v) :: l) .popFront (.popped v) l
  | moveBack {l r : List (Nat × V)} {idx : Nat} {v : V} :
      Step n (l ++ (idx, v) :: r) (.moveBack idx) .done (l ++ r ++ [(idx, v)])
  | moveFront {l r : List (Nat × V)} {idx : Nat} {v : V} :
      Step n (l ++ (idx, v) :: r) (.moveFront idx) .done ((idx, v) :: (l ++ r))
  | write {l r : List (Nat × V)} {idx : Nat} {old : V} (v : V) :
      Step n (l ++ (idx, old) :: r) (.write idx v) .done (l ++ (idx, v) :: r)
  | clear {l : List (Nat × V)} : Step n l .clear .done []

/-- A node that is in the deque, with what is in front of it and behind it. -/
theorem exists_split {l : List (Nat × V)} {idx : Nat} (h : idx ∈ l.map Prod.fst) :
    ∃ left v right, l = left ++ (idx, v) :: right := by
  obtain ⟨⟨i, v⟩, hmem, rfl⟩ := List.mem_map.mp h
  obtain ⟨left, right, rfl⟩ := List.append_of_mem hmem
  exact ⟨left, v, right, rfl⟩

end Deque

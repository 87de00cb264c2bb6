import Mathlib.Data.List.Basic
import Mathlib.Data.List.InsertIdx

/-!
# Arrays of slots

A fixed number of slots of which the first ones are in use. A new row takes the first spare slot as it is;
a deleted row is overwritten by the rows behind it, so the slot that becomes spare keeps what the last row
was. Seen through the rows in use alone, the array is a bounded list: what a new row holds is left open.
-/

/-- The rows in use, with the slots behind them. -/
structure SlotArray (α : Type*) where
  rows : List α
  spare : List α

namespace SlotArray

variable {α : Type*}

inductive Op (α : Type*) where
  | alloc
  | update (i : Nat) (f : α → α)
  | delete (i : Nat)

def size (s : SlotArray α) : Nat := s.rows.length + s.spare.length

def alloc (s : SlotArray α) : SlotArray α × Option Nat :=
  match s.spare with
  | [] => (s, none)
  | x :: spare => (⟨s.rows ++ [x], spare⟩, some s.rows.length)

def update (s : SlotArray α) (i : Nat) (f : α → α) : SlotArray α := { s with rows := s.rows.modify i f }

def delete (s : SlotArray α) (i : Nat) : SlotArray α × Option Nat :=
  if i < s.rows.length then
    (⟨s.rows.eraseIdx i, s.rows.getLast?.toList ++ s.spare⟩, some (s.rows.length - 1))
  else (s, none)

def step (s : SlotArray α) : Op α → SlotArray α × Option Nat
  | .alloc => s.alloc
  | .update i f => (s.update i f, none)
  | .delete i => s.delete i

/-! ### The bounded list -/

/-- What an operation may do to a list of at most `n` rows, with its answer. -/
inductive Step (n : Nat) : List α → Op α → Option Nat → List α → Prop
  | alloc {rows : List α} (x : α) (hroom : rows.length < n) :
      Step n rows .alloc (some rows.length) (rows ++ [x])
  | full {rows : List α} (hfull : rows.length = n) : Step n rows .alloc none rows
  | update {rows : List α} {i : Nat} (f : α → α) (hi : i < rows.length) :
      Step n rows (.update i f) none (rows.modify i f)
  | delete {rows : List α} {i : Nat} (hi : i < rows.length) :
      Step n rows (.delete i) (some (rows.length - 1)) (rows.eraseIdx i)
  | absent {rows : List α} {i : Nat} (hi : rows.length ≤ i) : Step n rows (.delete i) none rows

/-- Updates are made to rows in use. -/
def Op.InUse (k : Nat) : Op α → Prop
  | .alloc | .delete _ => True
  | .update i _ => i < k

/-- How many rows are in use after an operation on `k` of at most `n` rows. -/
def Op.count (n k : Nat) : Op α → Nat
  | .alloc => if k < n then k + 1 else k
  | .update _ _ => k
  | .delete i => if i < k then k - 1 else k

theorem Step.length {n : Nat} {rows rows' : List α} {op : Op α} {answer : Option Nat}
    (h : Step n rows op answer rows') : rows'.length = op.count n rows.length := by
  cases h with
  | alloc x hroom => simp [Op.count, hroom]
  | full hfull => simp [Op.count, hfull]
  | update f hi => simp [Op.count]
  | delete hi => simp [Op.count, hi, List.length_eraseIdx]
  | absent hi => simp [Op.count, Nat.not_lt.mpr hi]

theorem step_size (s : SlotArray α) (op : Op α) : (s.step op).1.size = s.size := by
  cases op with
  | alloc =>
      simp only [step, alloc]
      cases hspare : s.spare with
      | nil => rfl
      | cons x spare =>
          simp only [size, List.length_append, hspare, List.length_cons, List.length_nil]
          omega
  | update i f => simp [step, update, size]
  | delete i =>
      rw [step, delete]
      by_cases hi : i < s.rows.length
      · have hne : s.rows ≠ [] := List.ne_nil_of_length_pos (by omega)
        rw [if_pos hi]
        simp only [size, List.length_eraseIdx, if_pos hi, List.getLast?_eq_some_getLast hne,
          Option.toList_some, List.length_append, List.length_cons, List.length_nil]
        omega
      · rw [if_neg hi]

theorem step_refines (s : SlotArray α) (op : Op α) (h : op.InUse s.rows.length) :
    Step s.size s.rows op (s.step op).2 (s.step op).1.rows := by
  cases op with
  | alloc =>
      simp only [step, alloc]
      cases hspare : s.spare with
      | nil => exact .full (by simp [size, hspare])
      | cons x spare => exact .alloc x (by simp [size, hspare])
  | update i f => exact .update f h
  | delete i =>
      rw [step, delete]
      by_cases hi : i < s.rows.length
      · rw [if_pos hi]
        exact .delete hi
      · rw [if_neg hi]
        exact .absent (Nat.not_lt.mp hi)

/-! ### New rows -/

/-- Every new row of a run holds `z`, where `left` are the rows that were the last ones when a row was
deleted, the latest one first: a new row takes the place of the first of them. -/
def NewRows (n : Nat) (z : α) : List α → List α → List (Op α) → Prop
  | _, _, [] => True
  | rows, left, .alloc :: ops =>
      if rows.length < n then (∀ x ∈ left.head?, x = z) ∧ NewRows n z (rows ++ [z]) left.tail ops
      else NewRows n z rows left ops
  | rows, left, .update i f :: ops => NewRows n z (rows.modify i f) left ops
  | rows, left, .delete i :: ops =>
      if i < rows.length then NewRows n z (rows.eraseIdx i) (rows.getLast?.toList ++ left) ops
      else NewRows n z rows left ops

end SlotArray

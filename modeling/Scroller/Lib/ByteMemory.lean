import Mathlib.Data.List.Basic
import Mathlib.Data.List.GetD

/-!
# Flat memory

A memory is a function from addresses to cells. Programs read it in slices and write lists of cells into
it; a slice is what was written last over its addresses, so the lemmas are the ways a slice can lie to a
write: the same place, apart, or split by its edge.
-/

namespace ByteMemory

variable {α : Type*}

/-- `n` cells from `p` on. -/
def slice (mem : Nat → α) (p n : Nat) : List α := (List.range n).map fun i => mem (p + i)

/-- `memcpy` of a list of cells to `p`. -/
def write (mem : Nat → α) (p : Nat) (cells : List α) : Nat → α :=
  fun i => if p ≤ i then cells.getD (i - p) (mem i) else mem i

/-- `memmove` of `n` cells from `src` to `dst`. -/
def move (mem : Nat → α) (dst src n : Nat) : Nat → α := write mem dst (slice mem src n)

variable {mem mem' : Nat → α} {p q n : Nat} {cells : List α}

@[simp]
theorem length_slice (mem : Nat → α) (p n : Nat) : (slice mem p n).length = n := by
  simp [slice]

@[simp]
theorem slice_zero (mem : Nat → α) (p : Nat) : slice mem p 0 = [] := rfl

theorem getElem_slice {i : Nat} (hi : i < (slice mem p n).length) :
    (slice mem p n)[i] = mem (p + i) := by
  simp [slice]

theorem slice_congr (h : ∀ i < n, mem' (p + i) = mem (q + i)) :
    slice mem' p n = slice mem q n := by
  apply List.map_congr_left
  intro i hi
  exact h i (List.mem_range.mp hi)

theorem slice_add (mem : Nat → α) (p m n : Nat) :
    slice mem p (m + n) = slice mem p m ++ slice mem (p + m) n := by
  rw [slice, List.range_add, List.map_append, List.map_map]
  simp only [slice, Function.comp_def, Nat.add_assoc]

theorem slice_succ (mem : Nat → α) (p n : Nat) :
    slice mem p (n + 1) = mem p :: slice mem (p + 1) n := by
  rw [Nat.add_comm, slice_add]
  rfl

theorem slice_concat (mem : Nat → α) (p n : Nat) :
    slice mem p (n + 1) = slice mem p n ++ [mem (p + n)] := slice_add mem p n 1

theorem take_slice (mem : Nat → α) (p : Nat) {m n : Nat} (h : m ≤ n) :
    (slice mem p n).take m = slice mem p m := by
  obtain ⟨k, rfl⟩ := Nat.exists_eq_add_of_le h
  rw [slice_add, List.take_left' (length_slice mem p m)]

theorem drop_slice (mem : Nat → α) (p : Nat) {m n : Nat} (h : m ≤ n) :
    (slice mem p n).drop m = slice mem (p + m) (n - m) := by
  obtain ⟨k, rfl⟩ := Nat.exists_eq_add_of_le h
  rw [slice_add, List.drop_left' (length_slice mem p m), Nat.add_sub_cancel_left]

theorem write_of_lt {i : Nat} (h : i < p) : write mem p cells i = mem i := by
  rw [write, if_neg (Nat.not_le.mpr h)]

theorem write_of_le {i : Nat} (h : p + cells.length ≤ i) : write mem p cells i = mem i := by
  rw [write, if_pos (by omega), List.getD_eq_default _ _ (by omega)]

theorem write_add {i : Nat} (h : i < cells.length) : write mem p cells (p + i) = cells[i] := by
  rw [write, if_pos (Nat.le_add_right p i), Nat.add_sub_cancel_left, List.getD_eq_getElem _ _ h]

/-- What was written can be read back. -/
@[simp]
theorem slice_write_self (mem : Nat → α) (p : Nat) (cells : List α) :
    slice (write mem p cells) p cells.length = cells := by
  apply List.ext_getElem (length_slice _ _ _)
  intro i hi hi'
  rw [getElem_slice, write_add hi']

theorem slice_write_of_disjoint (h : p + n ≤ q ∨ q + cells.length ≤ p) :
    slice (write mem q cells) p n = slice mem p n := by
  apply slice_congr
  intro i hi
  rcases h with h | h
  · exact write_of_lt (by omega)
  · exact write_of_le (by omega)

theorem slice_write_append (mem : Nat → α) (p n : Nat) (cells : List α) :
    slice (write mem (p + n) cells) p (n + cells.length) = slice mem p n ++ cells := by
  rw [slice_add, slice_write_self, slice_write_of_disjoint (Or.inl (Nat.le_refl (p + n)))]

theorem slice_move_self (mem : Nat → α) (dst src n : Nat) :
    slice (move mem dst src n) dst n = slice mem src n := by
  have hself := slice_write_self mem dst (slice mem src n)
  rwa [length_slice] at hself

theorem slice_write_inside {k : Nat} (h : k + n ≤ cells.length) :
    slice (write mem p cells) (p + k) n = (cells.drop k).take n := by
  apply List.ext_getElem
  · simp
    omega
  intro i hi hi'
  rw [length_slice] at hi
  rw [getElem_slice, Nat.add_assoc, write_add (by omega), List.getElem_take, List.getElem_drop]

/-- What was moved lies at its new place as it lay at the old one. -/
theorem slice_move_inside {dst src m k : Nat} (h : k + n ≤ m) :
    slice (move mem dst src m) (dst + k) n = slice mem (src + k) n := by
  rw [move, slice_write_inside (by rwa [length_slice]), drop_slice mem src (by omega),
    take_slice mem (src + k) (by omega)]

/-- A slice around what was written: the part in front of it, the written cells, and the part behind. -/
theorem slice_write_around {k : Nat} (h : k + cells.length ≤ n) :
    slice (write mem (p + k) cells) p n
      = (slice mem p n).take k ++ cells ++ (slice mem p n).drop (k + cells.length) := by
  obtain ⟨m, rfl⟩ := Nat.exists_eq_add_of_le h
  rw [slice_add, slice_write_append, take_slice mem p (by omega), drop_slice mem p (by omega),
    slice_write_of_disjoint (Or.inr (by omega)), Nat.add_sub_cancel_left]

theorem slice_move_of_disjoint {dst src m : Nat} (h : p + n ≤ dst ∨ dst + m ≤ p) :
    slice (move mem dst src m) p n = slice mem p n :=
  slice_write_of_disjoint (by rwa [length_slice])

end ByteMemory

import Mathlib.Data.UInt
import Mathlib.Logic.Function.Basic

/-!
# C strings in memory

Characters that lie one behind the other in a memory without bounds, and strings with their terminators.
-/

namespace CString

/-- Some characters lie in memory one behind the other. -/
def Chars (mem : Int → UInt8) : Int → List UInt8 → Prop
  | _, [] => True
  | p, c :: s => mem p = c ∧ Chars mem (p + 1) s

/-- A string with its terminator. -/
structure StringAt (mem : Int → UInt8) (p : Int) (s : List UInt8) : Prop where
  chars : Chars mem p s
  terminator : mem (p + s.length) = 0
  nonzero : 0 ∉ s

variable {mem mem' : Int → UInt8} {p q : Int} {s u w : List UInt8} {c : UInt8}

theorem chars_append : Chars mem p (u ++ w) ↔ Chars mem p u ∧ Chars mem (p + u.length) w := by
  induction u generalizing p with
  | nil => simp [Chars]
  | cons c u ih =>
      have hnext : p + 1 + (u.length : Int) = p + ((c :: u).length : Int) := by
        rw [List.length_cons]
        omega
      rw [List.cons_append, Chars, Chars, ih, and_assoc, hnext]

theorem Chars.mem_of_lt (h : Chars mem p s) (hlow : p ≤ q) (hhigh : q < p + s.length) : mem q ∈ s := by
  induction s generalizing p with
  | nil =>
      rw [List.length_nil] at hhigh
      omega
  | cons c s ih =>
      rw [List.length_cons] at hhigh
      rcases Int.lt_or_eq_of_le hlow with hlt | rfl
      · exact List.mem_cons_of_mem _ (ih h.2 (by omega) (by omega))
      · rw [h.1]
        exact List.mem_cons_self

theorem Chars.congr (h : Chars mem p s) (hsame : ∀ a, p ≤ a → a < p + s.length → mem' a = mem a) :
    Chars mem' p s := by
  induction s generalizing p with
  | nil => trivial
  | cons c s ih =>
      rw [List.length_cons] at hsame
      refine ⟨(hsame p (by omega) (by omega)).trans h.1, ih h.2 ?_⟩
      intro a hlow hhigh
      exact hsame a (by omega) (by omega)

theorem Chars.cut (h : Chars mem p s) (hnonzero : 0 ∉ s) :
    StringAt (Function.update mem (p + s.length) 0) p s where
  chars := h.congr fun a _ hhigh => Function.update_of_ne (by omega) _ _
  terminator := Function.update_self _ _ _
  nonzero := hnonzero

end CString

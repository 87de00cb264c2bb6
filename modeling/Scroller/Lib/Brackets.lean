import Mathlib.Data.UInt
import Mathlib.Algebra.BigOperators.Group.List.Basic
import Mathlib.Algebra.Order.Group.Int

/-!
# Words of brackets

A word over symbols that open a bracket (level 1), close one (level -1) or do neither (level 0). The height at
a position is the number of brackets that are open there. In a balanced word no height is negative and the last
one is zero; an opening symbol belongs to the symbol behind which its height comes back for the first time.
-/

namespace Brackets

variable {α : Type*} (level : α → Int) (max : Nat) (w : List α)

/-- The number of brackets open in front of position `k`. -/
def height (k : Nat) : Int := ((w.take k).map level).sum

/-- The heights up to position `k` are those of a word that can still become balanced. -/
def Within (k : Nat) : Prop := ∀ j ≤ k, 0 ≤ height level w j ∧ height level w j ≤ max

/-- A balanced word whose brackets are nested at most `max` deep. -/
def Balanced : Prop := Within level max w w.length ∧ height level w w.length = 0

/-- Brackets stay open at the end. -/
def LeftOpen : Prop := Within level max w w.length ∧ 0 < height level w w.length

/-- A bracket opens too deep, in front of all other errors. -/
def TooDeep : Prop := ∃ k, Within level max w k ∧ (max : Int) < height level w (k + 1)

/-- A bracket closes that was not opened, in front of all other errors. -/
def ClosedEarly : Prop := ∃ k, Within level max w k ∧ height level w (k + 1) < 0

/-- The symbols at `i` and `j` are the two ends of one bracket. -/
structure Matches (i j : Nat) : Prop where
  lt : i < j
  closes : height level w (j + 1) = height level w i
  inside : ∀ k, i < k → k ≤ j → height level w i < height level w k

variable {level max w}

@[simp]
theorem height_zero : height level w 0 = 0 := rfl

theorem height_succ {k : Nat} {a : α} (h : w[k]? = some a) :
    height level w (k + 1) = height level w k + level a := by
  obtain ⟨hk, rfl⟩ := List.getElem?_eq_some_iff.mp h
  rw [height, List.take_succ_eq_append_getElem hk, List.map_append, List.sum_append, List.map_singleton,
    List.sum_singleton]
  rfl

theorem height_of_le {k : Nat} (h : w.length ≤ k) : height level w k = height level w w.length := by
  rw [height, height, List.take_of_length_le h, List.take_length]

theorem within_zero : Within level max w 0 := by
  intro j hj
  rw [Nat.le_zero.mp hj, height_zero]
  exact ⟨Int.le_refl 0, Int.natCast_nonneg max⟩

theorem Within.succ {k : Nat} (h : Within level max w k) (hlow : 0 ≤ height level w (k + 1))
    (hhigh : height level w (k + 1) ≤ max) : Within level max w (k + 1) := by
  intro j hj
  rcases Nat.lt_or_eq_of_le hj with hlt | rfl
  · exact h j (Nat.le_of_lt_succ hlt)
  · exact ⟨hlow, hhigh⟩

theorem Within.of_length {k : Nat} (h : Within level max w w.length) : Within level max w k := by
  intro j _
  rcases Nat.le_total j w.length with hle | hle
  · exact h j hle
  · rw [height_of_le hle]
    exact h w.length (Nat.le_refl _)

theorem TooDeep.not_within (h : TooDeep level max w) : ¬ Within level max w w.length := by
  obtain ⟨k, -, hdeep⟩ := h
  intro hwithin
  have hhigh := ((@Within.of_length _ _ _ _ (k + 1) hwithin) (k + 1) (Nat.le_refl _)).2
  omega

theorem ClosedEarly.not_within (h : ClosedEarly level max w) : ¬ Within level max w w.length := by
  obtain ⟨k, -, hearly⟩ := h
  intro hwithin
  have hlow := ((@Within.of_length _ _ _ _ (k + 1) hwithin) (k + 1) (Nat.le_refl _)).1
  omega

theorem ClosedEarly.not_tooDeep (h : ClosedEarly level max w) : ¬ TooDeep level max w := by
  obtain ⟨k, hk, hearly⟩ := h
  rintro ⟨l, hl, hdeep⟩
  rcases Nat.lt_trichotomy k l with hlt | rfl | hlt
  · have hlow := (hl (k + 1) hlt).1
    omega
  · omega
  · have hhigh := (hk (l + 1) hlt).2
    omega

end Brackets

import Mathlib.Data.List.Basic

/-!
# Agreement of computations

A concrete computation agrees with an abstract one when both end with the same error or with values that are
related. The rules follow the two computations step by step.
-/

namespace Outcome

variable {ε α β γ δ : Type}

/-- Both computations end with the same error, or with values that `R` relates. -/
inductive Agrees (R : α → β → Prop) : Except ε α → Except ε β → Prop
  | ok {a : α} {b : β} (h : R a b) : Agrees R (.ok a) (.ok b)
  | error (e : ε) : Agrees R (.error e) (.error e)

namespace Agrees

variable {R : α → β → Prop} {S : γ → δ → Prop}

theorem of_ok {a : α} {y : Except ε β} (h : Agrees R (.ok a) y) : ∃ b, y = .ok b ∧ R a b := by
  cases h with
  | ok h => exact ⟨_, rfl, h⟩

theorem of_ok_right {x : Except ε α} {b : β} (h : Agrees R x (.ok b)) : ∃ a, x = .ok a ∧ R a b := by
  cases h with
  | ok h => exact ⟨_, rfl, h⟩

/-- **The rule of sequence.** -/
theorem bind {x : Except ε α} {y : Except ε β} {f : α → Except ε γ} {g : β → Except ε δ}
    (h : Agrees R x y) (hf : ∀ a b, R a b → Agrees S (f a) (g b)) : Agrees S (x >>= f) (y >>= g) := by
  cases h with
  | ok h => exact hf _ _ h
  | error e => exact .error e

theorem bind_same {x : Except ε α} {f : α → Except ε γ} {g : α → Except ε δ}
    (hf : ∀ a, x = .ok a → Agrees S (f a) (g a)) : Agrees S (x >>= f) (x >>= g) := by
  cases x with
  | ok a => exact hf a rfl
  | error e => exact .error e

end Agrees

end Outcome

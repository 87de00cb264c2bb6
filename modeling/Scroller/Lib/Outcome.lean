import Mathlib.Data.List.Basic

/-!
# Outcomes

What a computation that may fail can end with: a value with a property, or an error that is allowed. The rules
follow the computation from step to step.
-/

namespace Outcome

variable {ε ε' α β : Type}

/-- A computation ends with a value that `Q` holds of or with an error that `E` allows. -/
def Ensures (Q : α → Prop) (E : ε → Prop) : Except ε α → Prop
  | .ok a => Q a
  | .error e => E e

variable {Q : α → Prop} {R : β → Prop} {E : ε → Prop}

theorem ensures_iff {x : Except ε α} :
    Ensures Q E x ↔ (∀ a, x = .ok a → Q a) ∧ ∀ e, x = .error e → E e := by
  cases x with
  | ok a =>
      constructor
      · intro h
        refine ⟨fun b hb => ?_, nofun⟩
        cases hb
        exact h
      · intro h
        exact h.1 a rfl
  | error e =>
      constructor
      · intro h
        refine ⟨nofun, fun e' he => ?_⟩
        cases he
        exact h
      · intro h
        exact h.2 e rfl

namespace Ensures

theorem of_ok {x : Except ε α} {a : α} (h : Ensures Q E x) (hx : x = .ok a) : Q a :=
  (ensures_iff.mp h).1 a hx

theorem of_error {x : Except ε α} {e : ε} (h : Ensures Q E x) (hx : x = .error e) : E e :=
  (ensures_iff.mp h).2 e hx

/-- **The rule of consequence.** -/
theorem mono {Q' : α → Prop} {E' : ε → Prop} {x : Except ε α} (h : Ensures Q E x)
    (hQ : ∀ a, Q a → Q' a) (hE : ∀ e, E e → E' e) : Ensures Q' E' x := by
  cases x with
  | ok a => exact hQ a h
  | error e => exact hE e h

theorem post {Q' : α → Prop} {x : Except ε α} (h : Ensures Q E x) (hQ : ∀ a, Q a → Q' a) :
    Ensures Q' E x :=
  h.mono hQ fun _ he => he

/-- **The rule of sequence.** -/
theorem bind {x : Except ε α} {f : α → Except ε β} (h : Ensures Q E x)
    (hf : ∀ a, Q a → Ensures R E (f a)) : Ensures R E (x >>= f) := by
  cases x with
  | ok a => exact hf a h
  | error e => exact h

/-- The rule of sequence where the first half may end with any value. -/
theorem bind_any {x : Except ε α} {f : α → Except ε β} (h : Ensures (fun _ => True) E x)
    (hf : ∀ a, x = .ok a → Ensures R E (f a)) : Ensures R E (x >>= f) := by
  cases x with
  | ok a => exact hf a rfl
  | error e => exact h

theorem mapError {E' : ε' → Prop} {g : ε → ε'} {x : Except ε α} (h : Ensures Q E x)
    (hg : ∀ e, E e → E' (g e)) : Ensures Q E' (x.mapError g) := by
  cases x with
  | ok a => exact h
  | error e => exact hg e h

theorem ite {p : Prop} [Decidable p] {x y : Except ε α} (ht : p → Ensures Q E x)
    (hf : ¬ p → Ensures Q E y) : Ensures Q E (if p then x else y) := by
  split
  · exact ht ‹_›
  · exact hf ‹_›

theorem trivial (x : Except ε α) : Ensures (fun _ => True) (fun _ => True) x := by
  cases x <;> exact True.intro

end Ensures

theorem ensures_ok {a : α} (h : Q a) : Ensures Q E (.ok a) := h

theorem ensures_error {e : ε} (h : E e) : Ensures Q E (.error e) := h

end Outcome

import Mathlib.Data.List.Basic

/-!
# Builds and faults

The sources are compiled in two ways: a debug build keeps every `assert`, a release build defines
`NDEBUG` and drops them. A command that does not return is described by a fault.
-/

namespace Scroller

/-- A computation that returned went through both of its halves. -/
theorem bind_eq_ok {ε α β : Type} {x : Except ε α} {f : α → Except ε β} {b : β} :
    (x >>= f) = .ok b ↔ ∃ a, x = .ok a ∧ f a = .ok b := by
  cases x with
  | error e =>
      constructor
      · intro h
        cases h
      · rintro ⟨a, ha, -⟩
        cases ha
  | ok a =>
      constructor
      · intro h
        exact ⟨a, rfl, h⟩
      · rintro ⟨a', ha, h⟩
        cases ha
        exact h

inductive Build where
  | debug
  | release
deriving DecidableEq, Repr

/-- Why a call does not return: an assertion aborts it, it uses a pointer outside its object, it
dereferences `NULL`, its arithmetic is undefined, or one of its loops goes on for ever. -/
inductive Fault where
  | assertion
  | outOfBounds
  | nullPointer
  | negativeShift
  | divisionByZero
  | signedOverflow
  | diverges
deriving DecidableEq, Repr

/-- The macro `assert` of the C library. -/
def Build.assert (build : Build) (p : Prop) [Decidable p] : Except Fault Unit :=
  match build with
  | .debug => if p then .ok () else .error .assertion
  | .release => .ok ()

/-- An assertion whose condition is itself a call: a release build does not make it. -/
def Build.assertCall (build : Build) (call : Except Fault Bool) : Except Fault Unit :=
  match build with
  | .debug => do
      let b ← call
      Build.debug.assert (b = true)
  | .release => .ok ()

theorem Build.assert_eq_ok {build : Build} {p : Prop} [Decidable p] :
    build.assert p = .ok () ↔ (build = .debug → p) := by
  cases build with
  | debug => simp [Build.assert]
  | release => simp [Build.assert]

@[simp]
theorem Build.assertCall_of (build : Build) : build.assertCall (.ok true) = .ok () := by
  cases build <;> rfl

@[simp]
theorem Build.assert_of (build : Build) {p : Prop} [Decidable p] (h : p) :
    build.assert p = .ok () := by
  cases build <;> simp [Build.assert, h]

end Scroller

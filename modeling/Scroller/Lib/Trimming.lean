import Mathlib.Data.List.DropRight

/-!
# Trimming lists

A list without the blanks at its start and at its end, for any notion of a blank.
-/

namespace Trimming

variable {α : Type*} {blank : α → Bool} {s : List α}

/-- A list without the blanks around it. -/
def core (blank : α → Bool) (s : List α) : List α := (s.dropWhile blank).rdropWhile blank

theorem core_eq_nil_iff : core blank s = [] ↔ ∀ a ∈ s, blank a = true := by
  rw [core, List.rdropWhile_eq_nil_iff]
  constructor
  · intro hdrop a ha
    rw [← List.takeWhile_append_dropWhile (p := blank) (l := s)] at ha
    rcases List.mem_append.mp ha with ha | ha
    · exact List.mem_takeWhile_imp ha
    · exact hdrop a ha
  · intro hall a ha
    exact hall a ((List.dropWhile_sublist blank).subset ha)

/-- A list is its core between blanks; a blank one is blanks in front of nothing. -/
theorem exists_core (blank : α → Bool) (s : List α) :
    ∃ lead trail, s = lead ++ (core blank s ++ trail)
      ∧ (∀ a ∈ lead, blank a = true) ∧ (∀ a ∈ trail, blank a = true) ∧ (core blank s = [] → trail = []) := by
  refine ⟨s.takeWhile blank, (s.dropWhile blank).rtakeWhile blank, ?_, ?_, ?_, ?_⟩
  · rw [core, List.rdropWhile_append_rtakeWhile, List.takeWhile_append_dropWhile]
  · intro a ha
    exact List.mem_takeWhile_imp ha
  · intro a ha
    exact List.mem_rtakeWhile_imp ha
  · intro hcore
    rw [List.dropWhile_eq_nil_iff.mpr (core_eq_nil_iff.mp hcore), List.rtakeWhile_nil]

theorem head?_core {a : α} (ha : a ∈ (core blank s).head?) : blank a = false := by
  have hnot := List.head?_dropWhile_not blank s
  obtain ⟨rest, hrest⟩ := List.rdropWhile_prefix (p := blank) (s.dropWhile blank)
  have hhead : (s.dropWhile blank).head? = some a := by
    rw [← hrest, List.head?_append_of_ne_nil]
    · exact ha
    · intro hnil
      rw [core, hnil] at ha
      cases ha
  rw [hhead] at hnot
  exact hnot

theorem getLast?_core {a : α} (ha : a ∈ (core blank s).getLast?) : blank a = false := by
  have hne : core blank s ≠ [] := by
    intro hnil
    rw [hnil] at ha
    cases ha
  have hlast := List.rdropWhile_last_not blank (s.dropWhile blank) hne
  rw [core] at ha hne
  rw [List.getLast?_eq_some_getLast hne, Option.mem_def, Option.some.injEq] at ha
  rw [ha] at hlast
  exact Bool.eq_false_iff.mpr hlast

end Trimming

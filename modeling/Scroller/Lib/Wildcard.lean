import Mathlib.Data.List.Infix

/-!
# Patterns with wildcards

In a pattern the symbol `many` stands for any list of symbols and `one` for any single symbol; every other
symbol stands for itself. A part of a pattern without `many` takes as many symbols as it has, so that of all
ways to match, only the choice at the last `many` can still matter to a search from the left.
-/

namespace Wildcard

variable {α : Type*} [DecidableEq α] {one many : α}

/-- Whether the whole text is one that the pattern stands for. -/
def accepts (one many : α) : List α → List α → Bool
  | [], text => text.isEmpty
  | p :: pattern, text =>
      if p = many then text.tails.any (accepts one many pattern)
      else
        match text with
        | [] => false
        | c :: text => (p = one || p = c) && accepts one many pattern text

theorem accepts_nil {text : List α} : accepts one many [] text = true ↔ text = [] :=
  List.isEmpty_iff

theorem accepts_many {pattern text : List α} :
    accepts one many (many :: pattern) text = true ↔
      ∃ rest, rest <:+ text ∧ accepts one many pattern rest = true := by
  have htails : accepts one many (many :: pattern) text
      = text.tails.any (accepts one many pattern) := by
    rw [accepts.eq_def]
    exact if_pos rfl
  rw [htails, List.any_eq_true]
  constructor
  · rintro ⟨rest, hmem, haccepts⟩
    exact ⟨rest, (List.mem_tails _ _).mp hmem, haccepts⟩
  · rintro ⟨rest, hsuffix, haccepts⟩
    exact ⟨rest, (List.mem_tails _ _).mpr hsuffix, haccepts⟩

theorem accepts_cons {p c : α} {pattern text : List α} (hp : p ≠ many) :
    accepts one many (p :: pattern) (c :: text) = true ↔
      (p = one ∨ p = c) ∧ accepts one many pattern text = true := by
  rw [accepts.eq_def]
  dsimp only
  rw [if_neg hp, Bool.and_eq_true, Bool.or_eq_true, decide_eq_true_iff, decide_eq_true_iff]

theorem not_accepts_cons_nil {p : α} {pattern : List α} (hp : p ≠ many) :
    ¬ accepts one many (p :: pattern) [] = true := by
  rw [accepts.eq_def]
  dsimp only
  rw [if_neg hp]
  exact Bool.false_ne_true

/-- What `many` takes can grow to the left. -/
theorem accepts_many_of_suffix {pattern text rest : List α} (hsuffix : rest <:+ text)
    (h : accepts one many (many :: pattern) rest = true) :
    accepts one many (many :: pattern) text = true := by
  obtain ⟨tail, htail, haccepts⟩ := accepts_many.mp h
  exact accepts_many.mpr ⟨tail, htail.trans hsuffix, haccepts⟩

/-- The choices of `many` in front of a text that is not empty: it takes nothing, or the first symbol. -/
theorem accepts_many_cons {c : α} {pattern text : List α} :
    accepts one many (many :: pattern) (c :: text) = true ↔
      accepts one many pattern (c :: text) = true
        ∨ ∃ rest, rest <:+ text ∧ accepts one many pattern rest = true := by
  rw [accepts_many]
  constructor
  · rintro ⟨rest, hsuffix, haccepts⟩
    rcases List.suffix_cons_iff.mp hsuffix with rfl | hsuffix
    · exact Or.inl haccepts
    · exact Or.inr ⟨rest, hsuffix, haccepts⟩
  · rintro (haccepts | ⟨rest, hsuffix, haccepts⟩)
    · exact ⟨c :: text, List.suffix_rfl, haccepts⟩
    · exact ⟨rest, List.suffix_cons_iff.mpr (Or.inr hsuffix), haccepts⟩

theorem accepts_empty {pattern : List α} :
    accepts one many pattern [] = true ↔ (pattern.all fun p => p = many) = true := by
  induction pattern with
  | nil => exact ⟨fun _ => rfl, fun _ => rfl⟩
  | cons p pattern ih =>
      by_cases hp : p = many
      · subst hp
        rw [accepts_many, List.all_cons, decide_eq_true rfl, Bool.true_and, ← ih]
        constructor
        · rintro ⟨rest, hsuffix, haccepts⟩
          rw [List.suffix_nil.mp hsuffix] at haccepts
          exact haccepts
        · intro haccepts
          exact ⟨[], List.suffix_rfl, haccepts⟩
      · rw [List.all_cons, decide_eq_false hp, Bool.false_and]
        exact iff_of_false (not_accepts_cons_nil hp) Bool.false_ne_true

/-- A part without `many` takes one symbol for each of its own. -/
theorem accepts_append {part pattern text : List α} (hpart : many ∉ part)
    (h : accepts one many (part ++ pattern) text = true) :
    ∃ taken rest, text = taken ++ rest ∧ taken.length = part.length
      ∧ accepts one many pattern rest = true := by
  induction part generalizing text with
  | nil => exact ⟨[], text, rfl, rfl, h⟩
  | cons p part ih =>
      have hp : p ≠ many := fun heq => hpart (heq ▸ List.mem_cons_self)
      cases text with
      | nil => exact absurd h (not_accepts_cons_nil hp)
      | cons c text =>
          obtain ⟨-, hrest⟩ := (accepts_cons hp).mp h
          obtain ⟨taken, rest, rfl, hlength, haccepts⟩ :=
            ih (fun hmem => hpart (List.mem_cons_of_mem p hmem)) hrest
          exact ⟨c :: taken, rest, rfl, congrArg Nat.succ hlength, haccepts⟩

end Wildcard

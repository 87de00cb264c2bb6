import Scroller.LikeIndices
import Scroller.Proof.Like

/-!
# LIKE with indices

The loop of `like` reads its strings at indices inside of them only, and goes through the same positions as the
loop over the rests of the strings.
-/

namespace Scroller

variable {src pattern : List UInt8} {si pi : Nat}

theorem byteAt_eq {s : List UInt8} {i : Nat} {c : UInt8} (h : s[i]? = some c) :
    byteAt s i = .ok c := by
  rw [byteAt, h]

theorem atMany_eq : atMany pattern pi = .ok (decide ((pattern.drop pi).head? = some 37)) := by
  rw [atMany, List.head?_drop]
  by_cases hpi : pi < pattern.length
  · have hp := List.getElem?_eq_getElem hpi
    rw [if_pos hpi, byteAt_eq hp, hp]
    simp [pure, Except.pure, bind, Except.bind]
  · rw [if_neg hpi, List.getElem?_eq_none (Nat.not_lt.mp hpi)]
    rfl

theorem atOne_eq (hsi : si < src.length) :
    atOne src pattern si pi = .ok (decide ((pattern.drop pi).head? = some 95
      ∨ (pattern.drop pi).head? = some src[si])) := by
  rw [atOne, List.head?_drop]
  by_cases hpi : pi < pattern.length
  · have hp := List.getElem?_eq_getElem hpi
    have hc := List.getElem?_eq_getElem hsi
    rw [if_pos hpi, byteAt_eq hp, hp, byteAt_eq hc]
    by_cases hone : pattern[pi] = 95
    · simp [hone, pure, Except.pure, bind, Except.bind]
    · simp [hone, pure, Except.pure, bind, Except.bind]
  · rw [if_neg hpi, List.getElem?_eq_none (Nat.not_lt.mp hpi)]
    simp [pure, Except.pure]

/-- The second loop finds out whether only `%` are left. -/
theorem likeEnd_eq {fuel : Nat} (hpi : pi ≤ pattern.length) (hfuel : pattern.length - pi < fuel) :
    likeEnd pattern fuel pi = .ok ((pattern.drop pi).all (· = 37)) := by
  induction fuel generalizing pi with
  | zero => exact absurd hfuel (Nat.not_lt_zero _)
  | succ fuel ih =>
      rw [likeEnd, atMany_eq]
      rcases Nat.lt_or_eq_of_le hpi with hlt | rfl
      · rw [List.drop_eq_getElem_cons hlt, List.all_cons]
        by_cases hmany : pattern[pi] = 37
        · have hnext := ih hlt (by omega)
          simpa [hmany, bind, Except.bind] using hnext
        · have hp := List.getElem?_eq_getElem hlt
          simp [hp, hmany, bind, Except.bind, pure, Except.pure, Nat.ne_of_lt hlt]
      · simp [bind, Except.bind, pure, Except.pure]

/-- A state as positions in the strings. -/
def LikeState.rests (src pattern : List UInt8) (s : LikeState) : Option (List UInt8 × List UInt8) :=
  s.star.map fun star => (pattern.drop (star + 1), src.drop s.ss)

/-- The indices of a state lie in the strings. -/
structure LikeState.Inside (src pattern : List UInt8) (s : LikeState) : Prop where
  si_le : s.si ≤ src.length
  pi_le : s.pi ≤ pattern.length
  star_lt : ∀ star, s.star = some star → star < pattern.length ∧ s.ss ≤ s.si

theorem drop_of_head {s : List UInt8} {i : Nat} {p : UInt8} (h : (s.drop i).head? = some p) :
    i < s.length ∧ s.drop i = p :: s.drop (i + 1) := by
  rw [List.head?_drop] at h
  obtain ⟨hi, rfl⟩ := List.getElem?_eq_some_iff.mp h
  exact ⟨hi, List.drop_eq_getElem_cons hi⟩

/-- The first loop goes through the positions of the loop over the rests. -/
theorem likeFrom_eq {fuel : Nat} {s : LikeState} (h : s.Inside src pattern) :
    likeFrom src pattern fuel s
      = likeLoop fuel (src.drop s.si) (pattern.drop s.pi) (s.rests src pattern) := by
  induction fuel generalizing s with
  | zero => rw [likeFrom, likeLoop]
  | succ fuel ih =>
      rw [likeFrom]
      by_cases hsi : s.si < src.length
      · rw [if_pos hsi, atMany_eq, atOne_eq hsi, List.drop_eq_getElem_cons hsi]
        by_cases hmany : (pattern.drop s.pi).head? = some 37
        · -- `star` and `ss` are set to this place
          obtain ⟨hpi, hdrop⟩ := drop_of_head hmany
          have hinside : LikeState.Inside src pattern
              { s with star := some s.pi, pi := s.pi + 1, ss := s.si } := by
            refine { si_le := h.si_le, pi_le := hpi, star_lt := ?_ }
            intro star hstar
            cases hstar
            exact ⟨hpi, Nat.le_refl _⟩
          rw [decide_eq_true hmany, hdrop, likeLoop_many]
          have hnext := ih hinside
          rw [List.drop_eq_getElem_cons hsi] at hnext
          rw [LikeState.rests, Option.map_some, List.drop_eq_getElem_cons hsi] at hnext
          exact hnext
        · rw [decide_eq_false hmany]
          by_cases hone : (pattern.drop s.pi).head? = some 95
              ∨ (pattern.drop s.pi).head? = some src[s.si]
          · -- both indices go on
            rw [decide_eq_true hone]
            obtain ⟨p, hp, hc⟩ : ∃ p, (pattern.drop s.pi).head? = some p ∧ (p = 95 ∨ p = src[s.si]) := by
              rcases hone with hone | hone
              · exact ⟨95, hone, Or.inl rfl⟩
              · exact ⟨src[s.si], hone, Or.inr rfl⟩
            obtain ⟨hpi, hdrop⟩ := drop_of_head hp
            have hne : p ≠ 37 := fun heq => hmany (hp.trans (congrArg some heq))
            have hinside : LikeState.Inside src pattern { s with si := s.si + 1, pi := s.pi + 1 } := by
              refine { si_le := hsi, pi_le := hpi, star_lt := ?_ }
              intro star hstar
              exact ⟨(h.star_lt star hstar).1, Nat.le_succ_of_le (h.star_lt star hstar).2⟩
            rw [hdrop, likeLoop_advance hne hc]
            exact ih hinside
          · -- both indices go back, the one of the source one symbol less than before
            rw [decide_eq_false hone, likeLoop_back hmany hone]
            cases hstar : s.star with
            | none =>
                rw [LikeState.rests, hstar]
                rfl
            | some star =>
                obtain ⟨hlt, hss⟩ := h.star_lt star hstar
                have hinside : LikeState.Inside src pattern
                    { s with pi := star + 1, si := s.ss + 1, ss := s.ss + 1 } := by
                  refine { si_le := Nat.lt_of_le_of_lt hss hsi, pi_le := hlt, star_lt := ?_ }
                  intro star' hstar'
                  exact ⟨(h.star_lt star' hstar').1, Nat.le_refl _⟩
                have hnext := ih hinside
                rw [LikeState.rests, hstar, Option.map_some] at hnext ⊢
                change likeFrom src pattern fuel ⟨s.ss + 1, star + 1, some star, s.ss + 1⟩
                  = likeLoop fuel (src.drop s.ss).tail (pattern.drop (star + 1))
                    (some (pattern.drop (star + 1), (src.drop s.ss).tail))
                rw [List.tail_drop]
                exact hnext
      · rw [if_neg hsi, List.drop_eq_nil_of_le (Nat.not_lt.mp hsi), likeLoop,
          likeEnd_eq h.pi_le (by omega)]
        rfl

/-- The indices go through the same loop as the rests of the strings. -/
theorem likeIndices_eq (src pattern : List UInt8) : likeIndices src pattern = like src pattern := by
  have hinside : LikeState.Inside src pattern ⟨0, 0, none, 0⟩ :=
    { si_le := Nat.zero_le _, pi_le := Nat.zero_le _, star_lt := nofun }
  exact likeFrom_eq hinside

/-- **LIKE is correct**: `like` ends, reads nothing outside its strings, and finds out whether the pattern
stands for the source. -/
theorem likeIndices_correct (src pattern : List UInt8) :
    likeIndices src pattern = .ok (Wildcard.accepts 95 37 pattern src) := by
  rw [likeIndices_eq]
  exact like_eq src pattern

example : likeIndices [97, 98, 97, 98, 99] [37, 97, 95, 99] = .ok true := by decide

end Scroller

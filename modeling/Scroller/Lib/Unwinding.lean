import Scroller.Lib.Machine

/-!
# Two runs with the same visible inputs

A relation between two states that hidden inputs keep on either side, and that a visible input keeps where both sides
get it, holds behind every two runs with the same visible inputs.
-/

namespace Machine

variable {σ ι ω ε : Type*} {step : σ → ι → Except ε (σ × ω)}

/-- **The unwinding rule.** -/
theorem exec_unwinding (seen : ι → Bool) (R : σ → σ → Prop) (P Q : σ → ι → Prop)
    (hleft : ∀ s t i s' o, R s t → P s i → seen i = false → step s i = .ok (s', o) → R s' t)
    (hright : ∀ s t i t' o, R s t → Q t i → seen i = false → step t i = .ok (t', o) → R s t')
    (hboth : ∀ s t i s' t' o o', R s t → P s i → Q t i → seen i = true → step s i = .ok (s', o) →
      step t i = .ok (t', o') → R s' t')
    {s t s' t' : σ} {is js : List ι} {hist hist' : List (ι × ω)} (hstart : R s t)
    (hsame : is.filter seen = js.filter seen) (hP : Along step P s is) (hQ : Along step Q t js)
    (h : exec step s is = .ok (s', hist)) (h' : exec step t js = .ok (t', hist')) : R s' t' := by
  induction is generalizing s t js hist hist' with
  | nil =>
      cases h
      induction js generalizing t hist' with
      | nil =>
          cases h'
          exact hstart
      | cons j js ih =>
          obtain ⟨t₁, o, rest, hstep, hrest, -⟩ := exec_cons_eq_ok.mp h'
          obtain ⟨hj, hQ⟩ := (along_cons hstep).mp hQ
          cases hseen : seen j with
          | true =>
              rw [List.filter_cons_of_pos hseen] at hsame
              cases hsame
          | false =>
              rw [List.filter_cons_of_neg (by rw [hseen]; exact Bool.false_ne_true)] at hsame
              exact ih hsame hQ hrest (hright _ t j t₁ o hstart hj hseen hstep)
  | cons i is ih =>
      obtain ⟨s₁, o, rest, hstep, hrest, -⟩ := exec_cons_eq_ok.mp h
      obtain ⟨hi, hP⟩ := (along_cons hstep).mp hP
      cases hseen : seen i with
      | false =>
          rw [List.filter_cons_of_neg (by rw [hseen]; exact Bool.false_ne_true)] at hsame
          exact ih (hleft s t i s₁ o hstart hi hseen hstep) hsame hP hQ hrest h'
      | true =>
          rw [List.filter_cons_of_pos hseen] at hsame
          -- the other run gets to the same input behind its hidden ones
          induction js generalizing t hist' with
          | nil => cases hsame
          | cons j js ihj =>
              obtain ⟨t₁, o', rest', hstep', hrest', -⟩ := exec_cons_eq_ok.mp h'
              obtain ⟨hj, hQ'⟩ := (along_cons hstep').mp hQ
              cases hseen' : seen j with
              | false =>
                  rw [List.filter_cons_of_neg (by rw [hseen']; exact Bool.false_ne_true)] at hsame
                  exact ihj (hright s t j t₁ o' hstart hj hseen' hstep') hsame hQ' hrest'
              | true =>
                  rw [List.filter_cons_of_pos hseen'] at hsame
                  obtain ⟨rfl, htail⟩ := List.cons.inj hsame
                  exact ih (hboth s t i s₁ t₁ o o' hstart hi hj hseen hstep hstep') htail hP hQ' hrest hrest'

end Machine

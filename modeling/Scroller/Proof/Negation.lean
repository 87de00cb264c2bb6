import Scroller.Execute

/-!
# Negated predicates

`NOT LIKE` and `NOT IN` are the complements of `LIKE` and `IN`; `NOT BETWEEN` has the value of `BETWEEN`.
-/

namespace Scroller.Execute

/-- The predicates that the grammar has a negative form of. -/
inductive Predicate where
  | like (l r : Tree .additive)
  | isIn (l : Tree .additive) (v : Datum) (vs : List Datum)
  | between (x a b : Tree .additive)

namespace Predicate

def positive : Predicate → Tree .cmp
  | .like l r => .like l r
  | .isIn l v vs => .isIn l v vs
  | .between x a b => .between x a b

def negative : Predicate → Tree .cmp
  | .like l r => .notLike l r
  | .isIn l v vs => .notIn l v vs
  | .between x a b => .notBetween x a b

/-- `NOT (positive form)`. -/
def negation (p : Predicate) : Tree .not :=
  .not (.notUnit (.cmpUnit (.ofAtom (.paren (.ofCmp p.positive)))))

variable {build : Build} {columns : Columns} {p : Predicate} {v : Int64}

theorem positive_value (h : p.positive.eval build columns = .ok v) : ∃ b, v = ofBool b := by
  cases p with
  | like l r =>
      obtain ⟨d1, -, h⟩ := bind_eq_ok.mp h
      obtain ⟨d2, -, h⟩ := bind_eq_ok.mp h
      obtain ⟨u, -, h⟩ := bind_eq_ok.mp h
      obtain ⟨found, -, h⟩ := bind_eq_ok.mp h
      cases h
      exact ⟨found, rfl⟩
  | isIn l v vs =>
      obtain ⟨d, -, h⟩ := bind_eq_ok.mp h
      obtain ⟨ds, -, h⟩ := bind_eq_ok.mp h
      obtain ⟨found, -, h⟩ := bind_eq_ok.mp h
      cases h
      exact ⟨found, rfl⟩
  | between x a b =>
      obtain ⟨d1, -, h⟩ := bind_eq_ok.mp h
      obtain ⟨d2, -, h⟩ := bind_eq_ok.mp h
      obtain ⟨d3, -, h⟩ := bind_eq_ok.mp h
      obtain ⟨u, -, h⟩ := bind_eq_ok.mp h
      obtain ⟨u, -, h⟩ := bind_eq_ok.mp h
      obtain ⟨found, -, h⟩ := bind_eq_ok.mp h
      cases h
      exact ⟨found, rfl⟩

theorem negation_eval (h : p.positive.eval build columns = .ok v) :
    p.negation.eval build columns = .ok (ofBool (v = 0)) := by
  obtain ⟨b, rfl⟩ := positive_value h
  unfold negation
  simp only [Tree.eval, h]
  cases b <;> rfl

theorem negative_eval (h : p.positive.eval build columns = .ok v)
    (hp : ∀ x a b, p ≠ .between x a b) : p.negative.eval build columns = .ok (ofBool (v = 0)) := by
  cases p with
  | like l r =>
      obtain ⟨d1, hl, h⟩ := bind_eq_ok.mp h
      obtain ⟨d2, hr, h⟩ := bind_eq_ok.mp h
      obtain ⟨u, hcheck, h⟩ := bind_eq_ok.mp h
      obtain ⟨found, hfound, h⟩ := bind_eq_ok.mp h
      cases h
      refine bind_eq_ok.mpr ⟨d1, hl, bind_eq_ok.mpr ⟨d2, hr, ?_⟩⟩
      refine bind_eq_ok.mpr ⟨u, hcheck, bind_eq_ok.mpr ⟨found, hfound, ?_⟩⟩
      cases found <;> rfl
  | isIn l v vs =>
      obtain ⟨d, hl, h⟩ := bind_eq_ok.mp h
      obtain ⟨ds, hvs, h⟩ := bind_eq_ok.mp h
      obtain ⟨found, hfound, h⟩ := bind_eq_ok.mp h
      cases h
      refine bind_eq_ok.mpr ⟨d, hl, bind_eq_ok.mpr ⟨ds, hvs, ?_⟩⟩
      refine bind_eq_ok.mpr ⟨found, hfound, ?_⟩
      cases found <;> rfl
  | between x a b => exact absurd rfl (hp x a b)

theorem between_eval (x a b : Tree .additive) :
    (negative (.between x a b)).eval build columns = (positive (.between x a b)).eval build columns :=
  rfl

end Predicate

/-- The negative form is the complement of the positive one, and has the value of its negation, for every
predicate other than `BETWEEN`. -/
theorem complement_iff {build : Build} {columns : Columns} {p : Predicate} {v : Int64}
    (h : p.positive.eval build columns = .ok v) :
    p.negative.eval build columns = .ok (ofBool (v = 0))
        ∧ p.negation.eval build columns = p.negative.eval build columns ↔
      ∀ x a b, p ≠ .between x a b := by
  constructor
  · rintro ⟨hnegative, -⟩ x a b rfl
    obtain ⟨found, rfl⟩ := Predicate.positive_value h
    rw [Predicate.between_eval, h] at hnegative
    cases found <;> exact absurd hnegative (by decide)
  · intro hp
    rw [Predicate.negation_eval h, Predicate.negative_eval h hp]
    exact ⟨rfl, rfl⟩

/-- `2 IN (1, 2)` -/
def twoInList : Predicate := .isIn (.ofAtom (.value (makeBigint 2))) (makeBigint 1) [makeBigint 2]

theorem complement_of_twoInList :
    twoInList.negative.eval .release (fun _ => .ok none) = .ok (ofBool ((1 : Int64) = 0))
        ∧ twoInList.negation.eval .release (fun _ => .ok none)
          = twoInList.negative.eval .release (fun _ => .ok none) ↔
      ∀ x a b, twoInList ≠ .between x a b :=
  complement_iff (by decide)

/-- `3 BETWEEN 2 AND 4` -/
def threeBetween : Predicate :=
  .between (.ofAtom (.value (makeBigint 3))) (.ofAtom (.value (makeBigint 2)))
    (.ofAtom (.value (makeBigint 4)))

/-- `3 NOT BETWEEN 2 AND 4` is true too. -/
theorem threeBetween_not_complement :
    threeBetween.positive.eval .release (fun _ => .ok none) = .ok 1
      ∧ threeBetween.negative.eval .release (fun _ => .ok none) = .ok 1 := by
  decide

end Scroller.Execute

import Scroller.Proof.WhereValue

/-!
# Arithmetic in WHERE expressions

The operators of an arithmetic expression are exact as long as their results, and the quotients of remainders,
fit into 64 bits and no divisor is zero. Nothing is checked before they are executed, so that otherwise their
arithmetic is undefined.
-/

namespace Scroller

namespace Execute

/-! ### Exact results -/

/-- The result of an operation on integers. -/
def exactAdditive : AdditiveOp → Int → Int → Option Int
  | .add, a, b => some (a + b)
  | .sub, a, b => some (a - b)
  | .concat, _, _ => none

/-- The result of an operation on integers; there is none of a division by zero. -/
def exactMultiplicative : MultiplicativeOp → Int → Int → Option Int
  | .mul, a, b => some (a * b)
  | .div, a, b => if b = 0 then none else some (a.tdiv b)
  | .mod, a, b => if b = 0 then none else some (a.tmod b)

/-- An action that sends an error. -/
def Reports (x : Except Stop Datum) : Prop := x = .error .mismatch ∨ x = .error .syntaxError

/-- An operation has its exact result if that can be represented, and reports an error otherwise. -/
def ComputesExact (exact : Option Int) (x : Except Stop Datum) : Prop :=
  match exact with
  | some n => (InRange n → x = .ok (makeBigint (.ofInt n))) ∧ (¬ InRange n → Reports x)
  | none => Reports x

/-- The operator at a node is exact for the data that come to it. -/
def ExactAt (build : Build) (row : Expr.Row) {n : Nonterminal} (t : Tree n) : Prop :=
  match t with
  | .additive op l r => ∀ d1 d2, l.eval build (rowColumns row) = .ok d1 →
      r.eval build (rowColumns row) = .ok d2 →
      ComputesExact (exactAdditive op d1.integer.toInt d2.integer.toInt) (additiveAction build op d1 d2)
  | .multiplicative op l r => ∀ d1 d2, l.eval build (rowColumns row) = .ok d1 →
      r.eval build (rowColumns row) = .ok d2 →
      ComputesExact (exactMultiplicative op d1.integer.toInt d2.integer.toInt)
        (multiplicativeAction build op d1 d2)
  | _ => True

/-- Every operator of an expression is exact, and no undefined arithmetic is executed. -/
structure ExactArithmetic (build : Build) (row : Expr.Row) (t : Tree .additive) : Prop where
  operators : t.All (ExactAt build row)
  defined : ∀ fault, t.eval build (rowColumns row) ≠ .error (.fault fault)

/-- An expression of operators on integers. -/
def Tree.IsArithmetic (row : Expr.Row) : {n : Nonterminal} → Tree n → Prop
  | _, .orUnit e => e.IsArithmetic row
  | _, .andUnit e => e.IsArithmetic row
  | _, .notUnit e => e.IsArithmetic row
  | _, .cmpUnit e => e.IsArithmetic row
  | _, .additiveUnit e => e.IsArithmetic row
  | _, .additive op l r => op ≠ .concat ∧ l.IsArithmetic row ∧ r.IsArithmetic row
  | _, .multiplicativeUnit e => e.IsArithmetic row
  | _, .multiplicative _ l r => l.IsArithmetic row ∧ r.IsArithmetic row
  | _, .value v => ∃ d, Expr.valueOf row v = .ok d ∧ d.type.group = .integer
  | _, .paren e => e.IsArithmetic row
  | _, _ => False

/-- The integer that an expression stands for, without a bound. What a parenthesis passes on is whether its
expression is zero. -/
def Tree.intValue (row : Expr.Row) : {n : Nonterminal} → Tree n → Option Int
  | _, .orUnit e => e.intValue row
  | _, .andUnit e => e.intValue row
  | _, .notUnit e => e.intValue row
  | _, .cmpUnit e => do
      let n ← e.intValue row
      return if n = 0 then 0 else 1
  | _, .additiveUnit e => e.intValue row
  | _, .additive op l r => do
      let n1 ← l.intValue row
      let n2 ← r.intValue row
      exactAdditive op n1 n2
  | _, .multiplicativeUnit e => e.intValue row
  | _, .multiplicative op l r => do
      let n1 ← l.intValue row
      let n2 ← r.intValue row
      exactMultiplicative op n1 n2
  | _, .value v =>
      match Expr.valueOf row v with
      | .ok d => some d.integer.toInt
      | .error _ => none
  | _, .paren e => e.intValue row
  | _, _ => none

/-- Operands whose result fits into 64 bits. -/
def FitsAdditive : AdditiveOp → Int → Int → Prop
  | .add, a, b => InRange (a + b)
  | .sub, a, b => InRange (a - b)
  | .concat, _, _ => False

/-- Operands whose result, or the quotient of whose remainder, fits into 64 bits. -/
def FitsMultiplicative : MultiplicativeOp → Int → Int → Prop
  | .mul, a, b => InRange (a * b)
  | .div, a, b | .mod, a, b => b ≠ 0 ∧ InRange (a.tdiv b)

/-- The operands of a node fit its operator. -/
def FitsAt (row : Expr.Row) {n : Nonterminal} (t : Tree n) : Prop :=
  match t with
  | .additive op l r => ∀ n1 n2, l.intValue row = some n1 → r.intValue row = some n2 →
      FitsAdditive op n1 n2
  | .multiplicative op l r => ∀ n1 n2, l.intValue row = some n1 → r.intValue row = some n2 →
      FitsMultiplicative op n1 n2
  | _ => True

/-! ### Operators -/

section Operators

variable {build : Build} {d1 d2 : Datum} {a b : Int64}

theorem addInt64_of_not_inRange (h : ¬ InRange (a.toInt + b.toInt)) :
    addInt64 a b = .error .signedOverflow := by
  rw [addInt64, if_neg (fun heq => h ((toInt_eq_iff add_eq_ofInt).mp heq))]

theorem mulInt64_of_not_inRange (h : ¬ InRange (a.toInt * b.toInt)) :
    mulInt64 a b = .error .signedOverflow := by
  rw [mulInt64, if_neg (fun heq => h ((toInt_eq_iff mul_eq_ofInt).mp heq))]

theorem eq_zero_of_toInt (hb : b.toInt = 0) : b = 0 := Int64.toInt_inj.mp hb

theorem divInt64_error (h : ¬ (b.toInt ≠ 0 ∧ InRange (a.toInt.tdiv b.toInt))) :
    ∃ fault, divInt64 a b = .error fault := by
  by_cases hb : b.toInt = 0
  · exact ⟨_, by rw [divInt64, if_pos (eq_zero_of_toInt hb)]⟩
  · refine ⟨.signedOverflow, ?_⟩
    rw [divInt64, if_neg (ne_zero_of_toInt hb),
      if_neg (fun heq => h ⟨hb, (toInt_eq_iff div_eq_ofInt).mp heq⟩)]

theorem modInt64_error (h : ¬ (b.toInt ≠ 0 ∧ InRange (a.toInt.tdiv b.toInt))) :
    ∃ fault, modInt64 a b = .error fault := by
  by_cases hb : b.toInt = 0
  · exact ⟨_, by rw [modInt64, if_pos (eq_zero_of_toInt hb)]⟩
  · exact ⟨_, modInt64_of_not_inRange hb (fun hrange => h ⟨hb, hrange⟩)⟩

theorem inRange_tmod (a b : Int64) : InRange (a.toInt.tmod b.toInt) := by
  rw [← Int64.toInt_mod]
  exact ⟨Int64.le_toInt _, Int64.toInt_lt _⟩

theorem not_reports_fault {fault : Fault} : ¬ Reports (.error (.fault fault)) := by
  rintro (h | h)
  · cases h
  · cases h

theorem additiveAction_of_fits {op : AdditiveOp} (h : dataArithmetical d1 d2 = true)
    (hfits : FitsAdditive op d1.integer.toInt d2.integer.toInt) :
    ∃ n, exactAdditive op d1.integer.toInt d2.integer.toInt = some n ∧ InRange n
      ∧ additiveAction build op d1 d2 = .ok (makeBigint (.ofInt n)) := by
  cases op with
  | add =>
      exact ⟨_, rfl, hfits, additiveAction_eq (calculate_eq_ok.mpr ⟨h, hfits, rfl⟩)⟩
  | sub =>
      exact ⟨_, rfl, hfits, additiveAction_eq (calculate_eq_ok.mpr ⟨h, hfits, rfl⟩)⟩
  | concat => exact hfits.elim

theorem additiveAction_of_not_fits {op : AdditiveOp} (hop : op ≠ .concat)
    (h : dataArithmetical d1 d2 = true)
    (hfits : ¬ FitsAdditive op d1.integer.toInt d2.integer.toInt) :
    ∃ fault, additiveAction build op d1 d2 = .error (.fault fault) := by
  cases op with
  | add =>
      refine ⟨.signedOverflow, ?_⟩
      unfold additiveAction check
      dsimp only
      rw [if_pos h]
      exact congrArg call (calcData_error h (addInt64_of_not_inRange hfits))
  | sub =>
      refine ⟨.signedOverflow, ?_⟩
      unfold additiveAction check
      dsimp only
      rw [if_pos h]
      exact congrArg call (calcData_error h (subInt64_of_not_inRange hfits))
  | concat => exact absurd rfl hop

theorem multiplicativeAction_of_fits {op : MultiplicativeOp} (h : dataArithmetical d1 d2 = true)
    (hfits : FitsMultiplicative op d1.integer.toInt d2.integer.toInt) :
    ∃ n, exactMultiplicative op d1.integer.toInt d2.integer.toInt = some n ∧ InRange n
      ∧ multiplicativeAction build op d1 d2 = .ok (makeBigint (.ofInt n)) := by
  cases op with
  | mul =>
      refine ⟨_, rfl, hfits, (multiplicativeAction_iff ?_).mpr MultiplicativeOp.noConfusion⟩
      exact calculate_eq_ok.mpr ⟨h, hfits, rfl⟩
  | div =>
      refine ⟨_, if_neg hfits.1, hfits.2, (multiplicativeAction_iff ?_).mpr MultiplicativeOp.noConfusion⟩
      exact divide_eq_ok.mpr ⟨h, hfits.1, hfits.2, rfl⟩
  | mod =>
      have hrange := inRange_tmod d1.integer d2.integer
      refine ⟨_, if_neg hfits.1, hrange, (multiplicativeAction_iff ?_).mpr (fun _ => hfits.2)⟩
      exact divide_eq_ok.mpr ⟨h, hfits.1, hrange, rfl⟩

theorem multiplicativeAction_of_not_fits {op : MultiplicativeOp} (h : dataArithmetical d1 d2 = true)
    (hfits : ¬ FitsMultiplicative op d1.integer.toInt d2.integer.toInt) :
    ∃ fault, multiplicativeAction build op d1 d2 = .error (.fault fault) := by
  cases op with
  | mul =>
      refine ⟨.signedOverflow, ?_⟩
      unfold multiplicativeAction check
      dsimp only
      rw [if_pos h]
      exact congrArg call (calcData_error h (mulInt64_of_not_inRange hfits))
  | div =>
      obtain ⟨fault, hfault⟩ := divInt64_error hfits
      refine ⟨fault, ?_⟩
      unfold multiplicativeAction check
      dsimp only
      rw [if_pos h]
      exact congrArg call (calcData_error h hfault)
  | mod =>
      obtain ⟨fault, hfault⟩ := modInt64_error hfits
      obtain ⟨h1, h2⟩ := dataArithmetical_iff.mp h
      refine ⟨fault, ?_⟩
      unfold multiplicativeAction check
      dsimp only
      rw [h1, h2, if_pos (by decide)]
      exact congrArg call (calcData_error h hfault)

theorem not_computesExact_fault {exact : Option Int} {x : Except Stop Datum} {fault : Fault}
    (hx : x = .error (.fault fault)) : ¬ ComputesExact exact x := by
  subst hx
  cases exact with
  | none => exact not_reports_fault
  | some n =>
      rintro ⟨hin, hout⟩
      by_cases hrange : InRange n
      · cases hin hrange
      · exact not_reports_fault (hout hrange)

end Operators

/-! ### Expressions -/

section Expressions

variable {build : Build} {row : Expr.Row}

/-- A value of a node that is an integer. -/
def IsInt : (n : Nonterminal) → n.Value → Int → Prop
  | .or, v, i | .and, v, i | .not, v, i | .cmp, v, i => v.toInt = i
  | .additive, d, i | .multiplicative, d, i | .atom, d, i =>
      d.type.group = .integer ∧ d.integer.toInt = i

/-- Where all operands fit, an expression has the value of its integer. -/
theorem eval_of_fits {n : Nonterminal} {t : Tree n} (h : t.IsArithmetic row) (hfits : t.All (FitsAt row)) :
    ∃ v i, t.eval build (rowColumns row) = .ok v ∧ t.intValue row = some i ∧ IsInt n v i
      ∧ t.All (ExactAt build row) := by
  induction t with
  | orUnit e ih | andUnit e ih | notUnit e ih =>
      obtain ⟨v, i, heval, hint, hv, hexact⟩ := ih h hfits.2
      exact ⟨v, i, heval, hint, hv, trivial, hexact⟩
  | additiveUnit e ih | multiplicativeUnit e ih =>
      obtain ⟨v, i, heval, hint, hv, hexact⟩ := ih h hfits.2
      exact ⟨v, i, heval, hint, hv, trivial, hexact⟩
  | cmpUnit e ih =>
      obtain ⟨d, i, heval, hint, ⟨hgroup, hi⟩, hexact⟩ := ih h hfits.2
      have hne : d.type.group ≠ .unknown := by
        rw [hgroup]
        exact TypeGroup.noConfusion
      have htruth : d.truth = decide (i ≠ 0) := by
        rw [Datum.truth, hgroup, hi]
      refine ⟨ofBool d.truth, if i = 0 then 0 else 1, ?_, ?_, ?_, trivial, hexact⟩
      · rw [Tree.eval, heval]
        change (do
          let zeroed ← call (datumZeroed build d)
          return ofBool (! zeroed) : Except Stop Int64) = _
        rw [datumZeroed_eq hne]
        change Except.ok (ofBool (! ! d.truth)) = _
        rw [Bool.not_not]
      · rw [Tree.intValue, hint]
        rfl
      · rw [htruth]
        by_cases hzero : i = 0
        · simp [IsInt, ofBool, hzero]
        · simp [IsInt, ofBool, hzero]
  | paren e ih =>
      obtain ⟨v, i, heval, hint, hv, hexact⟩ := ih h hfits.2
      refine ⟨makeBigint v, i, ?_, hint, ⟨rfl, hv⟩, trivial, hexact⟩
      rw [Tree.eval, heval]
      rfl
  | value v =>
      obtain ⟨d, hd, hgroup⟩ := h
      refine ⟨d, d.integer.toInt, valueAction_eq hd, ?_, ⟨hgroup, rfl⟩, trivial⟩
      rw [Tree.intValue, hd]
  | additive op l r ihl ihr =>
      obtain ⟨d1, n1, hl, hn1, ⟨hgroup1, rfl⟩, hexactl⟩ := ihl h.2.1 hfits.2.1
      obtain ⟨d2, n2, hr, hn2, ⟨hgroup2, rfl⟩, hexactr⟩ := ihr h.2.2 hfits.2.2
      have harith := dataArithmetical_iff.mpr ⟨hgroup1, hgroup2⟩
      obtain ⟨n, hn, hrange, haction⟩ :=
        @additiveAction_of_fits build d1 d2 op harith (hfits.1 _ _ hn1 hn2)
      have hint : (Int64.ofInt n).toInt = n := Int64.toInt_ofInt_of_le hrange.1 hrange.2
      refine ⟨makeBigint (.ofInt n), n, ?_, ?_, ⟨rfl, hint⟩, ?_, hexactl, hexactr⟩
      · rw [Tree.eval, hl]
        change (do
          let r ← r.eval build (rowColumns row)
          additiveAction build op d1 r) = _
        rw [hr]
        exact haction
      · rw [Tree.intValue, hn1, hn2]
        exact hn
      · intro d1' d2' hd1 hd2
        cases hl.symm.trans hd1
        cases hr.symm.trans hd2
        rw [hn, haction]
        exact ⟨fun _ => rfl, fun hnot => absurd hrange hnot⟩
  | multiplicative op l r ihl ihr =>
      obtain ⟨d1, n1, hl, hn1, ⟨hgroup1, rfl⟩, hexactl⟩ := ihl h.1 hfits.2.1
      obtain ⟨d2, n2, hr, hn2, ⟨hgroup2, rfl⟩, hexactr⟩ := ihr h.2 hfits.2.2
      have harith := dataArithmetical_iff.mpr ⟨hgroup1, hgroup2⟩
      obtain ⟨n, hn, hrange, haction⟩ :=
        @multiplicativeAction_of_fits build d1 d2 op harith (hfits.1 _ _ hn1 hn2)
      have hint : (Int64.ofInt n).toInt = n := Int64.toInt_ofInt_of_le hrange.1 hrange.2
      refine ⟨makeBigint (.ofInt n), n, ?_, ?_, ⟨rfl, hint⟩, ?_, hexactl, hexactr⟩
      · rw [Tree.eval, hl]
        change (do
          let r ← r.eval build (rowColumns row)
          multiplicativeAction build op d1 r) = _
        rw [hr]
        exact haction
      · rw [Tree.intValue, hn1, hn2]
        exact hn
      · intro d1' d2' hd1 hd2
        cases hl.symm.trans hd1
        cases hr.symm.trans hd2
        rw [hn, haction]
        exact ⟨fun _ => rfl, fun hnot => absurd hrange hnot⟩
  | or l r | and l r | not e | cmp op l r | like l r | isIn l v vs | between x a b | notLike l r
  | notIn l v vs | notBetween x a b => exact h.elim

theorem fits_of_exact {n : Nonterminal} {t : Tree n} (h : t.IsArithmetic row)
    (hexact : t.All (ExactAt build row)) : t.All (FitsAt row) := by
  induction t with
  | orUnit e ih | andUnit e ih | notUnit e ih | cmpUnit e ih | additiveUnit e ih
  | multiplicativeUnit e ih | paren e ih => exact ⟨trivial, ih h hexact.2⟩
  | value v => trivial
  | additive op l r ihl ihr =>
      have hfitsl := ihl h.2.1 hexact.2.1
      have hfitsr := ihr h.2.2 hexact.2.2
      obtain ⟨d1, n1, hl, hn1, ⟨hgroup1, rfl⟩, -⟩ := @eval_of_fits build row _ l h.2.1 hfitsl
      obtain ⟨d2, n2, hr, hn2, ⟨hgroup2, rfl⟩, -⟩ := @eval_of_fits build row _ r h.2.2 hfitsr
      refine ⟨?_, hfitsl, hfitsr⟩
      intro n1' n2' hn1' hn2'
      cases hn1.symm.trans hn1'
      cases hn2.symm.trans hn2'
      by_contra hfits
      obtain ⟨fault, hfault⟩ := @additiveAction_of_not_fits build d1 d2 op h.1
        (dataArithmetical_iff.mpr ⟨hgroup1, hgroup2⟩) hfits
      exact not_computesExact_fault hfault (hexact.1 d1 d2 hl hr)
  | multiplicative op l r ihl ihr =>
      have hfitsl := ihl h.1 hexact.2.1
      have hfitsr := ihr h.2 hexact.2.2
      obtain ⟨d1, n1, hl, hn1, ⟨hgroup1, rfl⟩, -⟩ := @eval_of_fits build row _ l h.1 hfitsl
      obtain ⟨d2, n2, hr, hn2, ⟨hgroup2, rfl⟩, -⟩ := @eval_of_fits build row _ r h.2 hfitsr
      refine ⟨?_, hfitsl, hfitsr⟩
      intro n1' n2' hn1' hn2'
      cases hn1.symm.trans hn1'
      cases hn2.symm.trans hn2'
      by_contra hfits
      obtain ⟨fault, hfault⟩ := @multiplicativeAction_of_not_fits build d1 d2 op
        (dataArithmetical_iff.mpr ⟨hgroup1, hgroup2⟩) hfits
      exact not_computesExact_fault hfault (hexact.1 d1 d2 hl hr)
  | or l r | and l r | not e | cmp op l r | like l r | isIn l v vs | between x a b | notLike l r
  | notIn l v vs | notBetween x a b => exact h.elim

/-- **Arithmetic is exact** exactly where all operands fit their operators. -/
theorem exactArithmetic_iff {t : Tree .additive} (h : t.IsArithmetic row) :
    ExactArithmetic build row t ↔ t.All (FitsAt row) := by
  constructor
  · intro hexact
    exact fits_of_exact h hexact.operators
  · intro hfits
    obtain ⟨v, i, heval, -, -, hexact⟩ := @eval_of_fits build row _ t h hfits
    refine { operators := hexact, defined := ?_ }
    intro fault hfault
    rw [heval] at hfault
    cases hfault

/-- `id / 2` -/
def halfOfId : Tree .additive :=
  .additiveUnit (.multiplicative .div (.multiplicativeUnit (.value (makeName [105, 100])))
    (.value (makeBigint 2)))

/-- `2 / id` -/
def partOfTwo : Tree .additive :=
  .additiveUnit (.multiplicative .div (.multiplicativeUnit (.value (makeBigint 2)))
    (.value (makeName [105, 100])))

theorem exactArithmetic_iff_half : ExactArithmetic .release (idRow 7) halfOfId := by
  have harithmetic : halfOfId.IsArithmetic (idRow 7) := ⟨⟨_, rfl, rfl⟩, ⟨_, rfl, rfl⟩⟩
  apply (exactArithmetic_iff harithmetic).mpr
  refine ⟨trivial, ?_, ⟨trivial, trivial⟩, trivial⟩
  intro n1 n2 hn1 hn2
  cases hn1
  cases hn2
  exact ⟨by decide, by decide⟩

/-- A column that is zero divides nothing. -/
theorem zero_divides : ¬ ExactArithmetic .release (idRow 0) partOfTwo := by
  intro hexact
  have heval : partOfTwo.eval .release (rowColumns (idRow 0)) = .error (.fault .divisionByZero) := by
    decide
  exact hexact.defined _ heval

end Expressions

end Execute

end Scroller

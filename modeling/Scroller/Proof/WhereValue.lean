import Scroller.Proof.Calculation

/-!
# The value of a WHERE expression

Every node of a tree has the value of its expression, unless one of four things is met: `NOT BETWEEN`, a
parenthesis around something that is not a truth value, a comparison of integers whose difference is out of
range, and a remainder whose quotient is.
-/

namespace Scroller

namespace Execute

/-- A property of all nodes of a tree. -/
def Tree.All (p : {n : Nonterminal} → Tree n → Prop) : {n : Nonterminal} → Tree n → Prop
  | _, t@(.orUnit e) => p t ∧ e.All p
  | _, t@(.or l r) => p t ∧ l.All p ∧ r.All p
  | _, t@(.andUnit e) => p t ∧ e.All p
  | _, t@(.and l r) => p t ∧ l.All p ∧ r.All p
  | _, t@(.notUnit e) => p t ∧ e.All p
  | _, t@(.not e) => p t ∧ e.All p
  | _, t@(.cmpUnit e) => p t ∧ e.All p
  | _, t@(.cmp _ l r) => p t ∧ l.All p ∧ r.All p
  | _, t@(.like l r) => p t ∧ l.All p ∧ r.All p
  | _, t@(.isIn l _ _) => p t ∧ l.All p
  | _, t@(.between x a b) => p t ∧ x.All p ∧ a.All p ∧ b.All p
  | _, t@(.notLike l r) => p t ∧ l.All p ∧ r.All p
  | _, t@(.notIn l _ _) => p t ∧ l.All p
  | _, t@(.notBetween x a b) => p t ∧ x.All p ∧ a.All p ∧ b.All p
  | _, t@(.additiveUnit e) => p t ∧ e.All p
  | _, t@(.additive _ l r) => p t ∧ l.All p ∧ r.All p
  | _, t@(.multiplicativeUnit e) => p t ∧ e.All p
  | _, t@(.multiplicative _ l r) => p t ∧ l.All p ∧ r.All p
  | _, t@(.value _) => p t
  | _, t@(.paren e) => p t ∧ e.All p

/-- The columns of a row that can be read. -/
def rowColumns (row : Expr.Row) : Columns := fun name => .ok (row name)

/-- The value of a node for a datum: its truth, or the datum itself. -/
def valueOfDatum : (n : Nonterminal) → Datum → n.Value
  | .or, d | .and, d | .not, d | .cmp, d => ofBool d.truth
  | .additive, d | .multiplicative, d | .atom, d => d

/-- The second parser computes the value of the expression at a node. -/
def Agrees (build : Build) (row : Expr.Row) {n : Nonterminal} (t : Tree n) : Prop :=
  ∀ d, t.ast.denote row = .ok d → t.eval build (rowColumns row) = .ok (valueOfDatum n d)

/-- The comparisons of `IN`, up to the first datum that is equal. -/
def FitsIn (d : Datum) : List Datum → Prop
  | [] => True
  | v :: vs => Fits d v ∧ (d.order v ≠ .eq → FitsIn d vs)

/-- The values of the operands of a node do not meet a defect there. -/
def Sound (row : Expr.Row) {n : Nonterminal} (t : Tree n) : Prop :=
  match t with
  | .cmp _ l r => ∀ d1 d2, l.ast.denote row = .ok d1 → r.ast.denote row = .ok d2 → Fits d1 d2
  | .isIn l v vs | .notIn l v vs =>
      ∀ d ds, l.ast.denote row = .ok d → (v :: vs).mapM (Expr.valueOf row) = .ok ds → FitsIn d ds
  | .between x a b =>
      ∀ d1 d2 d3, x.ast.denote row = .ok d1 → a.ast.denote row = .ok d2 →
        b.ast.denote row = .ok d3 → Fits d1 d2 ∧ (d1.order d2 ≠ .lt → Fits d1 d3)
  | .notBetween .. => False
  | .multiplicative .mod l r =>
      ∀ d1 d2, l.ast.denote row = .ok d1 → r.ast.denote row = .ok d2 →
        InRange (d1.integer.toInt.tdiv d2.integer.toInt)
  | .paren e => ∀ d, e.ast.denote row = .ok d → d = .ofTruth d.truth
  | .orUnit _ | .or .. | .andUnit _ | .and .. | .notUnit _ | .not _ | .cmpUnit _ | .like ..
  | .notLike .. | .additiveUnit _ | .additive .. | .multiplicativeUnit _
  | .multiplicative .mul .. | .multiplicative .div .. | .value _ => True

/-! ### Truth values -/

theorem ofBool_ne_zero {b : Bool} : (decide (ofBool b ≠ 0)) = b := by
  cases b <;> decide

theorem truth_ofTruth (b : Bool) : (Datum.ofTruth b).truth = b := by
  cases b <;> decide

theorem makeBigint_ofBool (b : Bool) : makeBigint (ofBool b) = Datum.ofTruth b := rfl

/-! ### Actions -/

section Actions

variable {build : Build} {row : Expr.Row} {d1 d2 d : Datum}

theorem valueAction_eq {v : Datum} (h : Expr.valueOf row v = .ok d) :
    valueAction (rowColumns row) v = .ok d := by
  unfold Expr.valueOf at h
  unfold valueAction rowColumns call
  by_cases hname : v.type = .name
  · rw [if_pos hname] at h ⊢
    cases hcolumn : row v.character with
    | none =>
        rw [hcolumn] at h
        cases h
    | some column =>
        rw [hcolumn] at h
        dsimp only at h
        split at h
        · cases h
        · cases h
          rfl
  · rw [if_neg hname] at h ⊢
    dsimp only at h
    split at h
    · cases h
    · cases h
      rfl

theorem mapM_valueAction {vs ds : List Datum} (h : vs.mapM (Expr.valueOf row) = .ok ds) :
    vs.mapM (valueAction (rowColumns row)) = .ok ds := by
  induction vs generalizing ds with
  | nil =>
      cases h
      rfl
  | cons v vs ih =>
      rw [List.mapM_cons] at h ⊢
      obtain ⟨d, hd, h⟩ := bind_eq_ok.mp h
      obtain ⟨ds', hds, h⟩ := bind_eq_ok.mp h
      cases h
      rw [valueAction_eq hd, ih hds]
      rfl

/-- A comparison has its value as long as its difference is in range. -/
theorem cmpAction_iff {op : CmpOp} (h : Expr.comparison op d1 d2 = .ok d) :
    cmpAction build op d1 d2 = .ok (ofBool d.truth) ↔ Fits d1 d2 := by
  obtain ⟨u, hcomparable, hd⟩ := bind_eq_ok.mp h
  cases hd
  have hcheck : check (dataComparable d1 d2) = .ok () := if_pos (require_eq_ok.mp hcomparable)
  unfold cmpAction
  rw [hcheck]
  by_cases hfits : Fits d1 d2
  · obtain ⟨c, hcmp, htest⟩ := cmpData_eq (require_eq_ok.mp hcomparable) hfits
    rw [hcmp, truth_ofTruth, ← htest op]
    exact iff_of_true rfl hfits
  · rw [cmpData_error (require_eq_ok.mp hcomparable) hfits]
    exact iff_of_false (by rintro ⟨⟩) hfits

/-- The first datum of a list is comparable, and it is equal or the rest decides. -/
theorem member_cons {v : Datum} {vs : List Datum} {found : Bool}
    (h : Expr.member d (v :: vs) = .ok found) :
    dataComparable d v = true
      ∧ (d.order v = .eq ∧ found = true ∨ d.order v ≠ .eq ∧ Expr.member d vs = .ok found) := by
  unfold Expr.member at h
  rw [List.find?_cons] at h
  cases hcomparable : dataComparable d v with
  | false =>
      rw [hcomparable, Bool.not_false, Bool.true_or] at h
      obtain ⟨u, hrequire, -⟩ := bind_eq_ok.mp h
      rw [hcomparable] at hrequire
      cases hrequire
  | true =>
      refine ⟨rfl, ?_⟩
      rw [hcomparable, Bool.not_true, Bool.false_or] at h
      by_cases heq : d.order v = .eq
      · rw [decide_eq_true heq] at h
        dsimp only at h
        rw [hcomparable] at h
        cases h
        exact Or.inl ⟨heq, rfl⟩
      · rw [decide_eq_false heq] at h
        exact Or.inr ⟨heq, h⟩

theorem findEqual_iff {vs : List Datum} {found : Bool} (h : Expr.member d vs = .ok found) :
    findEqual build d vs = .ok found ↔ FitsIn d vs := by
  induction vs with
  | nil =>
      cases h
      exact iff_of_true rfl trivial
  | cons v vs ih =>
      obtain ⟨hcomparable, hcases⟩ := member_cons h
      have hcheck : check (dataComparable d v) = .ok () := if_pos hcomparable
      rw [findEqual, hcheck, FitsIn]
      by_cases hfits : Fits d v
      · obtain ⟨c, hcmp, htest⟩ := cmpData_eq hcomparable hfits
        have hzero : c = 0 ↔ d.order v = .eq := decide_eq_decide.mp (htest .eq)
        rw [hcmp, and_iff_right hfits]
        rcases hcases with ⟨heq, rfl⟩ | ⟨hne, hrest⟩
        · refine iff_of_true ?_ (fun hne => absurd heq hne)
          exact if_pos (hzero.mpr heq)
        · rw [← ih hrest, imp_iff_right hne]
          exact iff_of_eq (congrArg (· = Except.ok found) (if_neg (fun hc => hne (hzero.mp hc))))
      · rw [cmpData_error hcomparable hfits]
        exact iff_of_false (by rintro ⟨⟩) (fun h => hfits h.1)

theorem findEqual_of_ok {vs : List Datum} {found found' : Bool} (h : Expr.member d vs = .ok found)
    (hfind : findEqual build d vs = .ok found') : found' = found := by
  induction vs with
  | nil =>
      cases h
      cases hfind
      rfl
  | cons v vs ih =>
      obtain ⟨hcomparable, hcases⟩ := member_cons h
      have hcheck : check (dataComparable d v) = .ok () := if_pos hcomparable
      rw [findEqual, hcheck] at hfind
      by_cases hfits : Fits d v
      · obtain ⟨c, hcmp, htest⟩ := cmpData_eq hcomparable hfits
        have hzero : c = 0 ↔ d.order v = .eq := decide_eq_decide.mp (htest .eq)
        rw [hcmp] at hfind
        dsimp only [bind, Except.bind, call, Except.mapError] at hfind
        rcases hcases with ⟨heq, rfl⟩ | ⟨hne, hrest⟩
        · rw [if_pos (hzero.mpr heq)] at hfind
          cases hfind
          rfl
        · rw [if_neg (fun hc => hne (hzero.mp hc))] at hfind
          exact ih hrest hfind
      · rw [cmpData_error hcomparable hfits] at hfind
        cases hfind

/-- `IN` and `NOT IN` have their values as long as the comparisons they make are in range. -/
theorem findEqual_bind_iff {vs : List Datum} {found : Bool} {f : Bool → Bool}
    (h : Expr.member d vs = .ok found) :
    (do let found ← findEqual build d vs
        return ofBool (f found)) = .ok (ofBool (f found)) ↔ FitsIn d vs := by
  rw [← findEqual_iff h]
  constructor
  · intro hok
    obtain ⟨found', hfind, -⟩ := bind_eq_ok.mp hok
    rw [hfind, findEqual_of_ok h hfind]
  · intro hfind
    rw [hfind]
    rfl

theorem betweenData_eq {d3 : Datum} (hlow : dataArithmetical d1 d2 = true)
    (hhigh : dataArithmetical d1 d3 = true) (hfits : Fits d1 d2)
    (hfits' : d1.order d2 ≠ .lt → Fits d1 d3) :
    betweenData build d1 d2 d3
      = .ok (CmpOp.ge.holds (d1.order d2) && CmpOp.le.holds (d1.order d3)) := by
  obtain ⟨c, hcmp, htest⟩ := cmpData_eq (comparable_of_arithmetical hlow) hfits
  unfold betweenData
  rw [hcmp]
  dsimp only [bind, Except.bind]
  rw [htest .ge]
  by_cases hlt : d1.order d2 = .lt
  · rw [hlt]
    rfl
  · have hge : CmpOp.ge.holds (d1.order d2) = true := decide_eq_true hlt
    obtain ⟨c', hcmp', htest'⟩ :=
      cmpData_eq (comparable_of_arithmetical hhigh) (hfits' hlt)
    rw [hge, if_pos rfl, hcmp', ← htest' .le]
    rfl

theorem betweenData_error {d3 : Datum} (hlow : dataArithmetical d1 d2 = true)
    (hhigh : dataArithmetical d1 d3 = true)
    (hfits : ¬ (Fits d1 d2 ∧ (d1.order d2 ≠ .lt → Fits d1 d3))) :
    betweenData build d1 d2 d3 = .error .signedOverflow := by
  unfold betweenData
  by_cases hfit : Fits d1 d2
  · obtain ⟨hlt, hfit'⟩ := Classical.not_imp.mp (fun himp => hfits ⟨hfit, himp⟩)
    obtain ⟨c, hcmp, htest⟩ := cmpData_eq (comparable_of_arithmetical hlow) hfit
    have hge : CmpOp.ge.holds (d1.order d2) = true := decide_eq_true hlt
    rw [hcmp]
    dsimp only [bind, Except.bind]
    rw [htest .ge, hge, if_pos rfl, cmpData_error (comparable_of_arithmetical hhigh) hfit']
  · rw [cmpData_error (comparable_of_arithmetical hlow) hfit]
    rfl

/-- `BETWEEN` has its value as long as the comparisons it makes are in range. -/
theorem betweenAction_iff {d3 : Datum} (hlow : dataArithmetical d1 d2 = true)
    (hhigh : dataArithmetical d1 d3 = true) :
    betweenAction build d1 d2 d3
        = .ok (ofBool (CmpOp.ge.holds (d1.order d2) && CmpOp.le.holds (d1.order d3))) ↔
      Fits d1 d2 ∧ (d1.order d2 ≠ .lt → Fits d1 d3) := by
  unfold betweenAction check
  rw [if_pos hlow, if_pos hhigh]
  by_cases hfits : Fits d1 d2 ∧ (d1.order d2 ≠ .lt → Fits d1 d3)
  · rw [betweenData_eq hlow hhigh hfits.1 hfits.2]
    exact iff_of_true rfl hfits
  · rw [betweenData_error hlow hhigh hfits]
    exact iff_of_false (by rintro ⟨⟩) hfits

/-- `NOT BETWEEN` never has its value. -/
theorem notBetweenAction_ne {d3 : Datum} (hlow : dataArithmetical d1 d2 = true)
    (hhigh : dataArithmetical d1 d3 = true) :
    notBetweenAction build d1 d2 d3
      ≠ .ok (ofBool (! (CmpOp.ge.holds (d1.order d2) && CmpOp.le.holds (d1.order d3)))) := by
  unfold notBetweenAction check
  rw [if_pos hlow, if_pos hhigh]
  by_cases hfits : Fits d1 d2 ∧ (d1.order d2 ≠ .lt → Fits d1 d3)
  · rw [betweenData_eq hlow hhigh hfits.1 hfits.2]
    cases CmpOp.ge.holds (d1.order d2) && CmpOp.le.holds (d1.order d3) <;> decide
  · rw [betweenData_error hlow hhigh hfits]
    rintro ⟨⟩

theorem likeAction_eq (h : dataLexical d1 d2 = true) :
    likeAction build d1 d2 = .ok (ofBool (Wildcard.accepts 95 37 d2.text d1.text)) := by
  unfold likeAction check
  rw [if_pos h, likeData_eq h]
  rfl

theorem notLikeAction_eq (h : dataLexical d1 d2 = true) :
    notLikeAction build d1 d2 = .ok (ofBool (! Wildcard.accepts 95 37 d2.text d1.text)) := by
  unfold notLikeAction check
  rw [if_pos h, likeData_eq h]
  rfl

theorem additiveAction_eq {op : AdditiveOp} (h : Expr.calcAdditive op d1 d2 = .ok d) :
    additiveAction build op d1 d2 = .ok d := by
  cases op with
  | add =>
      obtain ⟨harith, hrange, rfl⟩ := calculate_eq_ok.mp h
      unfold additiveAction check
      dsimp only
      rw [if_pos harith]
      exact congrArg call (calcData_eq harith (addInt64_of_inRange hrange))
  | sub =>
      obtain ⟨harith, hrange, rfl⟩ := calculate_eq_ok.mp h
      unfold additiveAction check
      dsimp only
      rw [if_pos harith]
      exact congrArg call (calcData_eq harith (subInt64_of_inRange hrange))
  | concat =>
      obtain ⟨u, hlexical, hd⟩ := bind_eq_ok.mp h
      cases hd
      have hlexical := require_eq_ok.mp hlexical
      unfold additiveAction check catData
      dsimp only
      rw [if_pos hlexical, if_pos hlexical]
      rfl

/-- A remainder has its value as long as its quotient is in range. -/
theorem multiplicativeAction_iff {op : MultiplicativeOp} (h : Expr.calcMultiplicative op d1 d2 = .ok d) :
    multiplicativeAction build op d1 d2 = .ok d ↔
      (op = .mod → InRange (d1.integer.toInt.tdiv d2.integer.toInt)) := by
  cases op with
  | mul =>
      obtain ⟨harith, hrange, rfl⟩ := calculate_eq_ok.mp h
      refine iff_of_true ?_ MultiplicativeOp.noConfusion
      unfold multiplicativeAction check
      dsimp only
      rw [if_pos harith]
      exact congrArg call (calcData_eq harith (mulInt64_of_inRange hrange))
  | div =>
      obtain ⟨harith, hne, hrange, rfl⟩ := divide_eq_ok.mp h
      refine iff_of_true ?_ MultiplicativeOp.noConfusion
      unfold multiplicativeAction check
      dsimp only
      rw [if_pos harith]
      exact congrArg call (calcData_eq harith (divInt64_of_inRange hne hrange))
  | mod =>
      obtain ⟨harith, hne, hrange, rfl⟩ := divide_eq_ok.mp h
      obtain ⟨h1, h2⟩ := dataArithmetical_iff.mp harith
      rw [imp_iff_right rfl]
      unfold multiplicativeAction check
      dsimp only
      rw [h1, h2, if_pos (by decide)]
      by_cases hquotient : InRange (d1.integer.toInt.tdiv d2.integer.toInt)
      · refine iff_of_true ?_ hquotient
        exact congrArg call (calcData_eq harith (modInt64_of_inRange hne hquotient))
      · have herror : modData build d1 d2 = .error .signedOverflow :=
          calcData_error harith (modInt64_of_not_inRange hne hquotient)
        rw [herror]
        exact iff_of_false (by rintro ⟨⟩) hquotient

end Actions

/-! ### Nodes -/

section Nodes

variable {build : Build} {row : Expr.Row}

theorem Tree.All.root {p : {n : Nonterminal} → Tree n → Prop} {n : Nonterminal} {t : Tree n}
    (h : t.All p) : p t := by
  cases t <;> first | exact h.1 | exact h

theorem calcAdditive_known {op : AdditiveOp} {d1 d2 d : Datum}
    (h : Expr.calcAdditive op d1 d2 = .ok d) : d.type.group ≠ .unknown := by
  cases op with
  | add | sub =>
      obtain ⟨-, -, rfl⟩ := calculate_eq_ok.mp h
      exact TypeGroup.noConfusion
  | concat =>
      obtain ⟨u, -, h⟩ := bind_eq_ok.mp h
      cases h
      exact TypeGroup.noConfusion

theorem calcMultiplicative_known {op : MultiplicativeOp} {d1 d2 d : Datum}
    (h : Expr.calcMultiplicative op d1 d2 = .ok d) : d.type.group ≠ .unknown := by
  cases op with
  | mul =>
      obtain ⟨-, -, rfl⟩ := calculate_eq_ok.mp h
      exact TypeGroup.noConfusion
  | div | mod =>
      obtain ⟨-, -, -, rfl⟩ := divide_eq_ok.mp h
      exact TypeGroup.noConfusion

/-- A literal or a column has a known type, and so has every result. -/
theorem denote_known {e : Expr} {d : Datum} (h : e.denote row = .ok d) : d.type.group ≠ .unknown := by
  induction e generalizing d with
  | value v =>
      unfold Expr.denote Expr.valueOf at h
      split at h
      · cases h
      · split at h
        · cases h
        · cases h
          assumption
  | paren e ih => exact ih h
  | not e ih =>
      obtain ⟨d1, -, h⟩ := bind_eq_ok.mp h
      cases h
      exact TypeGroup.noConfusion
  | or l r ihl ihr | and l r ihl ihr =>
      obtain ⟨d1, -, h⟩ := bind_eq_ok.mp h
      obtain ⟨d2, -, h⟩ := bind_eq_ok.mp h
      cases h
      exact TypeGroup.noConfusion
  | cmp op l r ihl ihr | like negated l r ihl ihr =>
      obtain ⟨d1, -, h⟩ := bind_eq_ok.mp h
      obtain ⟨d2, -, h⟩ := bind_eq_ok.mp h
      obtain ⟨u, -, h⟩ := bind_eq_ok.mp h
      cases h
      exact TypeGroup.noConfusion
  | isIn negated l vs ihl =>
      obtain ⟨d1, -, h⟩ := bind_eq_ok.mp h
      obtain ⟨ds, -, h⟩ := bind_eq_ok.mp h
      obtain ⟨found, -, h⟩ := bind_eq_ok.mp h
      cases h
      exact TypeGroup.noConfusion
  | between negated x a b ihx iha ihb =>
      obtain ⟨d1, -, h⟩ := bind_eq_ok.mp h
      obtain ⟨d2, -, h⟩ := bind_eq_ok.mp h
      obtain ⟨d3, -, h⟩ := bind_eq_ok.mp h
      obtain ⟨u, -, h⟩ := bind_eq_ok.mp h
      obtain ⟨u, -, h⟩ := bind_eq_ok.mp h
      cases h
      exact TypeGroup.noConfusion
  | additive op l r ihl ihr =>
      obtain ⟨d1, -, h⟩ := bind_eq_ok.mp h
      obtain ⟨d2, -, h⟩ := bind_eq_ok.mp h
      exact calcAdditive_known h
  | multiplicative op l r ihl ihr =>
      obtain ⟨d1, -, h⟩ := bind_eq_ok.mp h
      obtain ⟨d2, -, h⟩ := bind_eq_ok.mp h
      exact calcMultiplicative_known h

theorem agrees_iff {n : Nonterminal} {t : Tree n} {d : Datum} (h : t.ast.denote row = .ok d) :
    Agrees build row t ↔ t.eval build (rowColumns row) = .ok (valueOfDatum n d) := by
  constructor
  · intro hagrees
    exact hagrees d h
  · intro heval d' h'
    rw [h] at h'
    cases h'
    exact heval

/-- A node without a condition of its own, over nodes that agree. -/
theorem agrees_of_eval {n : Nonterminal} {t : Tree n} {d : Datum} {p : Prop} (hp : p)
    (h : t.ast.denote row = .ok d)
    (heval : t.eval build (rowColumns row) = .ok (valueOfDatum n d)) : Agrees build row t ↔ p :=
  iff_of_true ((agrees_iff h).mpr heval) hp

theorem sound_in_iff {l : Expr} {vs ds : List Datum} {d : Datum} (h : l.denote row = .ok d)
    (hds : vs.mapM (Expr.valueOf row) = .ok ds) :
    FitsIn d ds ↔ ∀ d ds, l.denote row = .ok d → vs.mapM (Expr.valueOf row) = .ok ds →
      FitsIn d ds := by
  refine ⟨?_, fun hsound => hsound d ds h hds⟩
  intro hfits d' ds' h' hds'
  cases h.symm.trans h'
  cases hds.symm.trans hds'
  exact hfits

/-- The nodes of a tree agree exactly where their operands are sound. -/
theorem all_agrees_iff {n : Nonterminal} {t : Tree n} {d : Datum} (h : t.ast.denote row = .ok d) :
    t.All (Agrees build row) ↔ t.All (Sound row) := by
  induction t generalizing d with
  | orUnit e ih | andUnit e ih | notUnit e ih | additiveUnit e ih | multiplicativeUnit e ih =>
      rw [Tree.All, Tree.All, ih h, and_iff_right_of_imp, and_iff_right_of_imp]
      · intro _
        trivial
      · intro hall
        exact ((ih h).mpr hall).root
  | or l r ihl ihr | and l r ihl ihr =>
      have hd := h
      obtain ⟨d1, h1, h⟩ := bind_eq_ok.mp h
      obtain ⟨d2, h2, h⟩ := bind_eq_ok.mp h
      cases h
      rw [Tree.All, Tree.All, ← ihl h1, ← ihr h2]
      refine and_congr_left fun ⟨hl, hr⟩ => agrees_of_eval trivial hd ?_
      rw [Tree.eval, hl.root d1 h1, hr.root d2 h2]
      dsimp only [bind, Except.bind, valueOfDatum]
      rw [ofBool_ne_zero, ofBool_ne_zero, truth_ofTruth]
      rfl
  | not e ih =>
      have hd := h
      obtain ⟨d1, h1, h⟩ := bind_eq_ok.mp h
      cases h
      rw [Tree.All, Tree.All, ← ih h1]
      refine and_congr_left fun he => agrees_of_eval trivial hd ?_
      rw [Tree.eval, he.root d1 h1]
      dsimp only [bind, Except.bind, valueOfDatum]
      rw [truth_ofTruth]
      cases d1.truth <;> rfl
  | cmpUnit e ih =>
      rw [Tree.All, Tree.All, ← ih h]
      refine and_congr_left fun he => agrees_of_eval trivial h ?_
      rw [Tree.eval, he.root d h]
      dsimp only [bind, Except.bind, valueOfDatum]
      rw [datumZeroed_eq (denote_known h)]
      dsimp only [call, Except.mapError]
      rw [Bool.not_not]
      rfl
  | cmp op l r ihl ihr =>
      have hd := h
      obtain ⟨d1, h1, h⟩ := bind_eq_ok.mp h
      obtain ⟨d2, h2, h⟩ := bind_eq_ok.mp h
      rw [Tree.All, Tree.All, ← ihl h1, ← ihr h2]
      refine and_congr_left fun ⟨hl, hr⟩ => (agrees_iff hd).trans ?_
      rw [Tree.eval, hl.root d1 h1, hr.root d2 h2]
      refine (cmpAction_iff h).trans ⟨?_, fun hsound => hsound d1 d2 h1 h2⟩
      intro hfits d1' d2' h1' h2'
      cases h1.symm.trans h1'
      cases h2.symm.trans h2'
      exact hfits
  | like l r ihl ihr =>
      have hd := h
      obtain ⟨d1, h1, h⟩ := bind_eq_ok.mp h
      obtain ⟨d2, h2, h⟩ := bind_eq_ok.mp h
      obtain ⟨u, hlexical, h⟩ := bind_eq_ok.mp h
      cases h
      rw [Tree.All, Tree.All, ← ihl h1, ← ihr h2]
      refine and_congr_left fun ⟨hl, hr⟩ => agrees_of_eval trivial hd ?_
      rw [Tree.eval, hl.root d1 h1, hr.root d2 h2]
      dsimp only [bind, Except.bind, valueOfDatum]
      rw [truth_ofTruth, Bool.false_xor]
      exact likeAction_eq (require_eq_ok.mp hlexical)
  | notLike l r ihl ihr =>
      have hd := h
      obtain ⟨d1, h1, h⟩ := bind_eq_ok.mp h
      obtain ⟨d2, h2, h⟩ := bind_eq_ok.mp h
      obtain ⟨u, hlexical, h⟩ := bind_eq_ok.mp h
      cases h
      rw [Tree.All, Tree.All, ← ihl h1, ← ihr h2]
      refine and_congr_left fun ⟨hl, hr⟩ => agrees_of_eval trivial hd ?_
      rw [Tree.eval, hl.root d1 h1, hr.root d2 h2]
      dsimp only [bind, Except.bind, valueOfDatum]
      rw [truth_ofTruth, Bool.true_xor]
      exact notLikeAction_eq (require_eq_ok.mp hlexical)
  | isIn l v vs ih =>
      have hd := h
      obtain ⟨d1, h1, h⟩ := bind_eq_ok.mp h
      obtain ⟨ds, hds, h⟩ := bind_eq_ok.mp h
      obtain ⟨found, hfound, h⟩ := bind_eq_ok.mp h
      cases h
      rw [Tree.All, Tree.All, ← ih h1]
      refine and_congr_left fun hl => (agrees_iff hd).trans ?_
      rw [Tree.eval, hl.root d1 h1, mapM_valueAction hds]
      dsimp only [valueOfDatum]
      rw [truth_ofTruth, Bool.false_xor]
      exact (findEqual_bind_iff (f := id) hfound).trans (sound_in_iff h1 hds)
  | notIn l v vs ih =>
      have hd := h
      obtain ⟨d1, h1, h⟩ := bind_eq_ok.mp h
      obtain ⟨ds, hds, h⟩ := bind_eq_ok.mp h
      obtain ⟨found, hfound, h⟩ := bind_eq_ok.mp h
      cases h
      rw [Tree.All, Tree.All, ← ih h1]
      refine and_congr_left fun hl => (agrees_iff hd).trans ?_
      rw [Tree.eval, hl.root d1 h1, mapM_valueAction hds]
      dsimp only [valueOfDatum]
      rw [truth_ofTruth, Bool.true_xor]
      exact (findEqual_bind_iff (f := not) hfound).trans (sound_in_iff h1 hds)
  | between x a b ihx iha ihb =>
      have hd := h
      obtain ⟨d1, h1, h⟩ := bind_eq_ok.mp h
      obtain ⟨d2, h2, h⟩ := bind_eq_ok.mp h
      obtain ⟨d3, h3, h⟩ := bind_eq_ok.mp h
      obtain ⟨u, hlow, h⟩ := bind_eq_ok.mp h
      obtain ⟨u, hhigh, h⟩ := bind_eq_ok.mp h
      cases h
      rw [Tree.All, Tree.All, ← ihx h1, ← iha h2, ← ihb h3]
      refine and_congr_left fun ⟨hx, ha, hb⟩ => (agrees_iff hd).trans ?_
      rw [Tree.eval, hx.root d1 h1, ha.root d2 h2, hb.root d3 h3]
      dsimp only [valueOfDatum]
      rw [truth_ofTruth, Bool.false_xor]
      refine (betweenAction_iff (require_eq_ok.mp hlow) (require_eq_ok.mp hhigh)).trans
        ⟨?_, fun hsound => hsound d1 d2 d3 h1 h2 h3⟩
      intro hfits d1' d2' d3' h1' h2' h3'
      cases h1.symm.trans h1'
      cases h2.symm.trans h2'
      cases h3.symm.trans h3'
      exact hfits
  | notBetween x a b ihx iha ihb =>
      have hd := h
      obtain ⟨d1, h1, h⟩ := bind_eq_ok.mp h
      obtain ⟨d2, h2, h⟩ := bind_eq_ok.mp h
      obtain ⟨d3, h3, h⟩ := bind_eq_ok.mp h
      obtain ⟨u, hlow, h⟩ := bind_eq_ok.mp h
      obtain ⟨u, hhigh, h⟩ := bind_eq_ok.mp h
      cases h
      rw [Tree.All, Tree.All, ← ihx h1, ← iha h2, ← ihb h3]
      refine and_congr_left fun ⟨hx, ha, hb⟩ => (agrees_iff hd).trans ?_
      rw [Tree.eval, hx.root d1 h1, ha.root d2 h2, hb.root d3 h3]
      dsimp only [valueOfDatum]
      rw [truth_ofTruth, Bool.true_xor]
      exact iff_of_false (notBetweenAction_ne (require_eq_ok.mp hlow) (require_eq_ok.mp hhigh)) id
  | additive op l r ihl ihr =>
      have hd := h
      obtain ⟨d1, h1, h⟩ := bind_eq_ok.mp h
      obtain ⟨d2, h2, h⟩ := bind_eq_ok.mp h
      rw [Tree.All, Tree.All, ← ihl h1, ← ihr h2]
      refine and_congr_left fun ⟨hl, hr⟩ => agrees_of_eval trivial hd ?_
      rw [Tree.eval, hl.root d1 h1, hr.root d2 h2]
      exact additiveAction_eq h
  | multiplicative op l r ihl ihr =>
      have hd := h
      obtain ⟨d1, h1, h⟩ := bind_eq_ok.mp h
      obtain ⟨d2, h2, h⟩ := bind_eq_ok.mp h
      rw [Tree.All, Tree.All, ← ihl h1, ← ihr h2]
      refine and_congr_left fun ⟨hl, hr⟩ => (agrees_iff hd).trans ?_
      rw [Tree.eval, hl.root d1 h1, hr.root d2 h2]
      refine (multiplicativeAction_iff h).trans ?_
      cases op with
      | mul | div => exact iff_of_true MultiplicativeOp.noConfusion trivial
      | mod =>
          rw [imp_iff_right rfl]
          refine ⟨?_, fun hsound => hsound d1 d2 h1 h2⟩
          intro hquotient d1' d2' h1' h2'
          cases h1.symm.trans h1'
          cases h2.symm.trans h2'
          exact hquotient
  | value v => exact agrees_of_eval trivial h (valueAction_eq h)
  | paren e ih =>
      rw [Tree.All, Tree.All, ← ih h]
      refine and_congr_left fun he => (agrees_iff h).trans ?_
      rw [Tree.eval, he.root d h]
      dsimp only [bind, Except.bind, valueOfDatum]
      rw [makeBigint_ofBool]
      constructor
      · intro hok d' h'
        cases h.symm.trans h'
        exact (Except.ok.inj hok).symm
      · intro hsound
        exact congrArg Except.ok (hsound d h).symm

end Nodes

/-- The columns of a row, each character column with a byte of its own: in one of no characters `datum_zeroed` reads
the byte behind the cell. -/
structure CellRow where
  columns : Expr.Row
  characters : ∀ name d, columns name = some d → d.type.group = .character → d.character ≠ []

/-- An expression and all expressions in it have their values exactly where no operands meet a defect. -/
theorem where_value_iff {build : Build} (row : CellRow) {t : Tree .or} {d : Datum}
    (h : t.ast.denote row.columns = .ok d) :
    t.eval build (rowColumns row.columns) = .ok (ofBool d.truth) ∧ t.All (Agrees build row.columns) ↔
      t.All (Sound row.columns) := by
  rw [← all_agrees_iff h]
  exact and_iff_right_of_imp fun hall => hall.root d h

/-- A row with the column `id`. -/
def idRow (id : Int64) : Expr.Row := fun name => if name = [105, 100] then some (makeBigint id) else none

/-- `id = 1` -/
def idIsOne : Tree .or :=
  .ofCmp (.cmp .eq (.ofAtom (.value (makeName [105, 100]))) (.ofAtom (.value (makeBigint 1))))

theorem where_value_of_idIsOne :
    idIsOne.eval .release (rowColumns (idRow 1)) = .ok (ofBool (Datum.ofTruth true).truth)
        ∧ idIsOne.All (Agrees .release (idRow 1)) ↔
      idIsOne.All (Sound (idRow 1)) := by
  have hdenote : idIsOne.ast.denote (idRow 1) = .ok (Datum.ofTruth true) := by decide
  refine where_value_iff ⟨idRow 1, fun name d hcolumn hgroup => ?_⟩ hdenote
  unfold idRow at hcolumn
  split at hcolumn
  · cases hcolumn
    cases hgroup
  · cases hcolumn

/-- `(id + 1) = 2` -/
def sumIsTwo : Tree .or :=
  .ofCmp (.cmp .eq
    (.ofAtom (.paren (.ofCmp (.cmpUnit (.additive .add (.ofAtom (.value (makeName [105, 100])))
      (.multiplicativeUnit (.value (makeBigint 1))))))))
    (.ofAtom (.value (makeBigint 2))))

/-- A parenthesis makes the sum a truth value. -/
theorem sumIsTwo_ne :
    sumIsTwo.ast.denote (idRow 1) = .ok (.ofTruth true)
      ∧ sumIsTwo.eval .release (rowColumns (idRow 1)) = .ok (ofBool false) := by
  decide

end Execute

end Scroller

import Scroller.ExprParser
import Scroller.Lib.Outcome

/-!
# Outcomes of the expression parser

What holds of the lexer, of its tokens and of the values of the actions holds at the end of the parser.
-/

namespace Scroller.Execute

open Outcome

variable {L E : Type} {V : Nonterminal → Type} {W : Type}

/-- The values of the parts of a rule. -/
def Reduction.Parts (Val : {n : Nonterminal} → V n → Prop) (Wal : W → Prop) :
    {n : Nonterminal} → Reduction V W n → Prop
  | _, .orUnit e | _, .andUnit e | _, .notUnit e | _, .not e | _, .cmpUnit e | _, .additiveUnit e
  | _, .multiplicativeUnit e | _, .paren e => Val e
  | _, .or l r => Val l ∧ Val r
  | _, .and l r => Val l ∧ Val r
  | _, .cmp _ l r | _, .like l r | _, .notLike l r => Val l ∧ Val r
  | _, .isIn l v vs | _, .notIn l v vs => Val l ∧ ∀ w ∈ v :: vs, Wal w
  | _, .between x a b | _, .notBetween x a b => Val x ∧ Val a ∧ Val b
  | _, .additive _ l r => Val l ∧ Val r
  | _, .multiplicative _ l r => Val l ∧ Val r
  | _, .value v => Wal v

/-- The token ahead and the state of the lexer. -/
structure Look.Meets (J : L → Prop) (Tok : BcNode → Prop) (s : Look L) : Prop where
  lexer : J s.lexer
  ahead : ∀ x, s.yychar = some (some x) → Tok x

/-- A lexer and actions that respect properties of states, tokens, values and errors. -/
structure Respects (lexer : Lexer L E) (actions : Actions E V W) (J : L → Prop) (Tok : BcNode → Prop)
    (Val : {n : Nonterminal} → V n → Prop) (Wal : W → Prop) (Err : E → Prop) : Prop where
  lex : ∀ l, J l → Ensures (fun r => J r.1 ∧ ∀ x, r.2 = some x → Tok x) Err (lexer.lex l)
  syntaxError : Err lexer.syntaxError
  diverges : Err lexer.diverges
  value : ∀ d, Tok (.datum d) → Ensures Wal Err (actions.value d)
  reduce : ∀ {n} (r : Reduction V W n), r.Parts Val Wal → Ensures Val Err (actions.reduce r)

/-- The parser of a left side ends with a value that the property holds of. -/
abbrev Yields (J : L → Prop) (Tok : BcNode → Prop) (Val : {n : Nonterminal} → V n → Prop)
    (Err : E → Prop) (n : Nonterminal) (parse : Look L → Except E (Look L × V n)) : Prop :=
  ∀ s : Look L, s.Meets J Tok → Ensures (fun r => r.1.Meets J Tok ∧ Val r.2) Err (parse s)

/-- The parsers with the same fuel. -/
structure AllYield (lexer : Lexer L E) (actions : Actions E V W) (J : L → Prop) (Tok : BcNode → Prop)
    (Val : {n : Nonterminal} → V n → Prop) (Err : E → Prop) (fuel : Nat) : Prop where
  or : Yields J Tok Val Err .or (parseOr lexer actions fuel)
  and : Yields J Tok Val Err .and (parseAnd lexer actions fuel)
  not : Yields J Tok Val Err .not (parseNot lexer actions fuel)
  cmp : Yields J Tok Val Err .cmp (parseCmp lexer actions fuel)
  additive : Yields J Tok Val Err .additive (parseAdditive lexer actions fuel)
  multiplicative : Yields J Tok Val Err .multiplicative (parseMultiplicative lexer actions fuel)
  atom : Yields J Tok Val Err .atom (parseAtom lexer actions fuel)

namespace Respects

variable {lexer : Lexer L E} {actions : Actions E V W} {J : L → Prop} {Tok : BcNode → Prop}
  {Val : {n : Nonterminal} → V n → Prop} {Wal : W → Prop} {Err : E → Prop}
  (h : Respects lexer actions J Tok Val Wal Err)
include h

theorem peek {s : Look L} (hs : s.Meets J Tok) :
    Ensures (fun r => r.1.Meets J Tok ∧ ∀ x, r.2 = some x → Tok x) Err (s.peek lexer) := by
  unfold Look.peek
  split
  · rename_i token htoken
    exact ensures_ok ⟨hs, fun x hx => hs.ahead x (by rw [htoken]; exact congrArg some hx)⟩
  · apply (h.lex s.lexer hs.lexer).bind
    intro r hr
    refine ensures_ok ⟨⟨hr.1, fun x hx => ?_⟩, hr.2⟩
    exact hr.2 x (Option.some_injective _ hx)

omit h in
theorem shift {s : Look L} (hs : s.Meets J Tok) : s.shift.Meets J Tok :=
  ⟨hs.lexer, fun _ hx => nomatch hx⟩

theorem expect {s : Look L} (hs : s.Meets J Tok) (token : BcNode) :
    Ensures (fun s => s.Meets J Tok) Err (s.expect lexer token) := by
  apply (h.peek hs).bind
  intro r hr
  apply Ensures.ite
  · intro _
    exact ensures_ok (shift hr.1)
  · intro _
    exact h.syntaxError

theorem values {fuel : Nat} {s : Look L} (hs : s.Meets J Tok) :
    Ensures (fun r => r.1.Meets J Tok ∧ ∀ w ∈ r.2, Wal w) Err (parseValues lexer actions fuel s) := by
  induction fuel generalizing s with
  | zero => exact h.diverges
  | succ fuel ih =>
      rw [parseValues]
      apply (h.peek hs).bind
      intro r hr
      dsimp only
      split
      · rename_i d hd
        apply (h.value d (hr.2 _ hd)).bind
        intro v hv
        apply (ih (shift hr.1)).bind
        intro rest hrest
        refine ensures_ok ⟨hrest.1, fun w hw => ?_⟩
        cases hw with
        | head => exact hv
        | tail _ hw => exact hrest.2 w hw
      · exact ensures_ok ⟨hr.1, fun w hw => nomatch hw⟩

theorem list {fuel : Nat} {s : Look L} (hs : s.Meets J Tok) :
    Ensures (fun r => r.1.Meets J Tok ∧ ∀ w ∈ r.2.1 :: r.2.2, Wal w) Err
      (parseList lexer actions fuel s) := by
  apply (h.expect hs .lparen).bind
  intro s hs
  apply (h.values hs).bind
  intro r hr
  obtain ⟨s, vs⟩ := r
  cases vs with
  | nil => exact h.syntaxError
  | cons v vs =>
      apply (h.expect hr.1 .rparen).bind
      intro s hs
      exact ensures_ok ⟨hs, hr.2⟩

section Parts

variable {O A B : Type} {PA : A → Prop} {PB : B → Prop}

theorem leftLoop {op? : BcNode → Option O} {operand : Look L → Except E (Look L × B)}
    {reduce : O → A → B → Except E A}
    (hoperand : ∀ s, s.Meets J Tok → Ensures (fun r => r.1.Meets J Tok ∧ PB r.2) Err (operand s))
    (hreduce : ∀ op l r, PA l → PB r → Ensures PA Err (reduce op l r))
    {fuel : Nat} {l : A} {s : Look L} (hl : PA l) (hs : s.Meets J Tok) :
    Ensures (fun r => r.1.Meets J Tok ∧ PA r.2) Err (leftLoop lexer op? operand reduce fuel l s) := by
  induction fuel generalizing l s with
  | zero => exact h.diverges
  | succ fuel ih =>
      rw [Execute.leftLoop]
      apply (h.peek hs).bind
      intro r hr
      dsimp only
      split
      · rename_i op _
        apply (hoperand _ (shift hr.1)).bind
        intro e he
        apply (hreduce op l e.2 hl he.2).bind
        intro e' he'
        exact ih he' he.1
      · exact ensures_ok ⟨hr.1, hl⟩

omit h in
theorem finish {operand : Look L → Except E (Look L × A)} {reduce : A → Except E B}
    (hoperand : ∀ s, s.Meets J Tok → Ensures (fun r => r.1.Meets J Tok ∧ PA r.2) Err (operand s))
    (hreduce : ∀ e, PA e → Ensures PB Err (reduce e)) {s : Look L} (hs : s.Meets J Tok) :
    Ensures (fun r => r.1.Meets J Tok ∧ PB r.2) Err (finish operand reduce s) := by
  apply (hoperand s hs).bind
  intro r hr
  apply (hreduce r.2 hr.2).bind
  intro e he
  exact ensures_ok ⟨hr.1, he⟩

omit h in
theorem finishBetween {operand : Look L → Except E (Look L × A)} {reduce : A → A → Except E B}
    (hoperand : ∀ s, s.Meets J Tok → Ensures (fun r => r.1.Meets J Tok ∧ PA r.2) Err (operand s))
    (hreduce : ∀ a b, PA a → PA b → Ensures PB Err (reduce a b)) {s : Look L} (hs : s.Meets J Tok) :
    Ensures (fun r => r.1.Meets J Tok ∧ PB r.2) Err (finishBetween operand reduce s) := by
  apply (hoperand s hs).bind
  intro a ha
  apply (hoperand a.1 ha.1).bind
  intro b hb
  apply (hreduce a.2 b.2 ha.2 hb.2).bind
  intro e he
  exact ensures_ok ⟨hb.1, he⟩

end Parts

theorem cmpRest {fuel : Nat} {additive : Look L → Except E (Look L × V .additive)} {l : V .additive}
    (hadditive : Yields J Tok Val Err .additive additive)
    (hl : Val l) {s : Look L} (hs : s.Meets J Tok) :
    Ensures (fun r => r.1.Meets J Tok ∧ Val r.2) Err (cmpRest lexer actions fuel additive l s) := by
  apply (h.peek hs).bind
  intro r hr
  have hs := shift hr.1
  have hlist (reduce : W × List W → Reduction V W .cmp)
      (hparts : ∀ vs, (∀ w ∈ vs.1 :: vs.2, Wal w) → (reduce vs).Parts Val Wal) :=
    @finish _ _ J Tok Err _ _ (fun vs : W × List W => ∀ w ∈ vs.1 :: vs.2, Wal w) Val
      (parseList lexer actions fuel) (fun vs => actions.reduce (reduce vs)) (fun _ hs => h.list hs)
      (fun vs hvs => h.reduce (reduce vs) (hparts vs hvs)) r.1.shift hs
  dsimp only
  split
  · rename_i op _
    exact finish hadditive (fun r hr => h.reduce (.cmp op l r) ⟨hl, hr⟩) hs
  · exact finish hadditive (fun r hr => h.reduce (.like l r) ⟨hl, hr⟩) hs
  · exact hlist (fun vs => .isIn l vs.1 vs.2) fun vs hvs => ⟨hl, hvs⟩
  · exact finishBetween hadditive (fun a b ha hb => h.reduce (.between l a b) ⟨hl, ha, hb⟩) hs
  · exact finish hadditive (fun r hr => h.reduce (.notLike l r) ⟨hl, hr⟩) hs
  · exact hlist (fun vs => .notIn l vs.1 vs.2) fun vs hvs => ⟨hl, hvs⟩
  · exact finishBetween hadditive (fun a b ha hb => h.reduce (.notBetween l a b) ⟨hl, ha, hb⟩) hs
  · apply (h.reduce (.cmpUnit l) hl).bind
    intro e he
    exact ensures_ok ⟨hr.1, he⟩

theorem allYield_succ {fuel : Nat} (ih : AllYield lexer actions J Tok Val Err fuel) :
    AllYield lexer actions J Tok Val Err (fuel + 1) where
  or s hs := by
    rw [parseOr]
    apply (finish ih.and (fun e he => h.reduce (.orUnit e) he) hs).bind
    intro r hr
    exact h.leftLoop ih.and (fun _ l r hl hr => h.reduce (.or l r) ⟨hl, hr⟩) hr.2 hr.1
  and s hs := by
    rw [parseAnd]
    apply (finish ih.not (fun e he => h.reduce (.andUnit e) he) hs).bind
    intro r hr
    exact h.leftLoop ih.not (fun _ l r hl hr => h.reduce (.and l r) ⟨hl, hr⟩) hr.2 hr.1
  not s hs := by
    rw [parseNot]
    apply (h.peek hs).bind
    intro r hr
    dsimp only
    split
    · exact finish ih.not (fun e he => h.reduce (.not e) he) (shift hr.1)
    · exact finish ih.cmp (fun e he => h.reduce (.notUnit e) he) hr.1
  cmp s hs := by
    rw [parseCmp]
    apply (ih.additive s hs).bind
    intro r hr
    exact h.cmpRest ih.additive hr.2 hr.1
  additive s hs := by
    rw [parseAdditive]
    apply (finish ih.multiplicative (fun e he => h.reduce (.additiveUnit e) he) hs).bind
    intro r hr
    exact h.leftLoop ih.multiplicative (fun op l r hl hr => h.reduce (.additive op l r) ⟨hl, hr⟩)
      hr.2 hr.1
  multiplicative s hs := by
    rw [parseMultiplicative]
    apply (finish ih.atom (fun e he => h.reduce (.multiplicativeUnit e) he) hs).bind
    intro r hr
    exact h.leftLoop ih.atom (fun op l r hl hr => h.reduce (.multiplicative op l r) ⟨hl, hr⟩)
      hr.2 hr.1
  atom s hs := by
    rw [parseAtom]
    apply (h.peek hs).bind
    intro r hr
    dsimp only
    split
    · rename_i d hd
      apply (h.value d (hr.2 _ hd)).bind
      intro v hv
      apply (h.reduce (.value v) hv).bind
      intro e he
      exact ensures_ok ⟨shift hr.1, he⟩
    · apply (ih.or _ (shift hr.1)).bind
      intro e he
      apply (h.expect he.1 .rparen).bind
      intro s hs
      apply (h.reduce (.paren e.2) he.2).bind
      intro e' he'
      exact ensures_ok ⟨hs, he'⟩
    · exact h.syntaxError

theorem allYield (fuel : Nat) : AllYield lexer actions J Tok Val Err fuel := by
  induction fuel with
  | zero =>
      constructor <;>
      · intro s hs
        exact h.diverges
  | succ fuel ih => exact h.allYield_succ ih

end Respects

end Scroller.Execute

import Scroller.Execute

/-!
# Parsing expressions

The way of the second parser through the rules for expressions: left recursion is a loop that reduces before
it looks for the next operator. The parser is written for any lexer and any values of the left sides, so that
it can build trees as well as run the actions.
-/

namespace Scroller.Execute

/-- A rule with the values of its parts. The list of `IN` has the values of `value`. -/
inductive Reduction (V : Nonterminal → Type) (W : Type) : Nonterminal → Type where
  | orUnit (e : V .and) : Reduction V W .or
  | or (l : V .or) (r : V .and) : Reduction V W .or
  | andUnit (e : V .not) : Reduction V W .and
  | and (l : V .and) (r : V .not) : Reduction V W .and
  | notUnit (e : V .cmp) : Reduction V W .not
  | not (e : V .not) : Reduction V W .not
  | cmpUnit (e : V .additive) : Reduction V W .cmp
  | cmp (op : CmpOp) (l r : V .additive) : Reduction V W .cmp
  | like (l r : V .additive) : Reduction V W .cmp
  | isIn (l : V .additive) (v : W) (vs : List W) : Reduction V W .cmp
  | between (x a b : V .additive) : Reduction V W .cmp
  | notLike (l r : V .additive) : Reduction V W .cmp
  | notIn (l : V .additive) (v : W) (vs : List W) : Reduction V W .cmp
  | notBetween (x a b : V .additive) : Reduction V W .cmp
  | additiveUnit (e : V .multiplicative) : Reduction V W .additive
  | additive (op : AdditiveOp) (l : V .additive) (r : V .multiplicative) : Reduction V W .additive
  | multiplicativeUnit (e : V .atom) : Reduction V W .multiplicative
  | multiplicative (op : MultiplicativeOp) (l : V .multiplicative) (r : V .atom) :
      Reduction V W .multiplicative
  | value (v : W) : Reduction V W .atom
  | paren (e : V .or) : Reduction V W .atom

/-- The actions of the rules. -/
structure Actions (E : Type) (V : Nonterminal → Type) (W : Type) where
  value : Datum → Except E W
  reduce : {n : Nonterminal} → Reduction V W n → Except E (V n)

/-- A lexer with the errors of its parser; the end of the tokens is `none`. -/
structure Lexer (L E : Type) where
  lex : L → Except E (L × Option BcNode)
  syntaxError : E
  diverges : E

/-- The state of the lexer with the token ahead, if one was read. -/
structure Look (L : Type) where
  lexer : L
  yychar : Option (Option BcNode)

variable {L E : Type} {V : Nonterminal → Type} {W : Type}

namespace Look

/-- The token ahead. -/
def peek (lexer : Lexer L E) (s : Look L) : Except E (Look L × Option BcNode) :=
  match s.yychar with
  | some token => return (s, token)
  | none => do
      let (l, token) ← lexer.lex s.lexer
      return (⟨l, some token⟩, token)

def shift (s : Look L) : Look L := { s with yychar := none }

/-- Shifts one token that has to come. -/
def expect (lexer : Lexer L E) (token : BcNode) (s : Look L) : Except E (Look L) := do
  let (s, ahead) ← s.peek lexer
  if ahead = some token then return s.shift else .error lexer.syntaxError

end Look

section Parser

variable (lexer : Lexer L E) (actions : Actions E V W)

/-- The rest of `values`. -/
def parseValues : Nat → Look L → Except E (Look L × List W)
  | 0, _ => .error lexer.diverges
  | fuel + 1, s => do
      let (s, ahead) ← s.peek lexer
      match ahead with
      | some (.datum d) => do
          let v ← actions.value d
          let (s, vs) ← parseValues fuel s.shift
          return (s, v :: vs)
      | _ => return (s, [])

/-- `'(' values ')'`. -/
def parseList (fuel : Nat) (s : Look L) : Except E (Look L × W × List W) := do
  let s ← s.expect lexer .lparen
  let (s, vs) ← parseValues lexer actions fuel s
  match vs with
  | [] => .error lexer.syntaxError
  | v :: vs => do
      let s ← s.expect lexer .rparen
      return (s, v, vs)

/-- The rest of a list of operands between operators of one rule. Every operator is reduced before the next
one is looked for. -/
def leftLoop {O A B : Type} (op? : BcNode → Option O) (operand : Look L → Except E (Look L × B))
    (reduce : O → A → B → Except E A) : Nat → A → Look L → Except E (Look L × A)
  | 0, _, _ => .error lexer.diverges
  | fuel + 1, l, s => do
      let (s, ahead) ← s.peek lexer
      match ahead.bind op? with
      | some op => do
          let (s, r) ← operand s.shift
          let e ← reduce op l r
          leftLoop op? operand reduce fuel e s
      | none => return (s, l)

/-- An operand and what is made of it. -/
def finish {A B : Type} (operand : Look L → Except E (Look L × A)) (reduce : A → Except E B)
    (s : Look L) : Except E (Look L × B) := do
  let (s, e) ← operand s
  let e ← reduce e
  return (s, e)

/-- Two operands behind each other. -/
def finishBetween {A B : Type} (operand : Look L → Except E (Look L × A)) (reduce : A → A → Except E B)
    (s : Look L) : Except E (Look L × B) := do
  let (s, a) ← operand s
  let (s, b) ← operand s
  let e ← reduce a b
  return (s, e)

def isOr : BcNode → Option Unit
  | .or => some ()
  | _ => none

def isAnd : BcNode → Option Unit
  | .and => some ()
  | _ => none

def isAdditive : BcNode → Option AdditiveOp
  | .additive op => some op
  | _ => none

def isMultiplicative : BcNode → Option MultiplicativeOp
  | .multiplicative op => some op
  | _ => none

/-- The rest of `cmp_expr` behind its first operand. -/
def cmpRest (fuel : Nat) (additive : Look L → Except E (Look L × V .additive)) (l : V .additive)
    (s : Look L) : Except E (Look L × V .cmp) := do
  let (s, ahead) ← s.peek lexer
  match ahead with
  | some (.cmp op) => finish additive (fun r => actions.reduce (.cmp op l r)) s.shift
  | some .like => finish additive (fun r => actions.reduce (.like l r)) s.shift
  | some .isIn =>
      finish (parseList lexer actions fuel) (fun (v, vs) => actions.reduce (.isIn l v vs)) s.shift
  | some .between => finishBetween additive (fun a b => actions.reduce (.between l a b)) s.shift
  | some .notLike => finish additive (fun r => actions.reduce (.notLike l r)) s.shift
  | some .notIn =>
      finish (parseList lexer actions fuel) (fun (v, vs) => actions.reduce (.notIn l v vs)) s.shift
  | some .notBetween => finishBetween additive (fun a b => actions.reduce (.notBetween l a b)) s.shift
  | _ => do
      let e ← actions.reduce (.cmpUnit l)
      return (s, e)

mutual

def parseOr : Nat → Look L → Except E (Look L × V .or)
  | 0, _ => .error lexer.diverges
  | fuel + 1, s => do
      let (s, e) ← finish (parseAnd fuel) (fun e => actions.reduce (.orUnit e)) s
      leftLoop lexer isOr (parseAnd fuel) (fun _ l r => actions.reduce (.or l r)) fuel e s

def parseAnd : Nat → Look L → Except E (Look L × V .and)
  | 0, _ => .error lexer.diverges
  | fuel + 1, s => do
      let (s, e) ← finish (parseNot fuel) (fun e => actions.reduce (.andUnit e)) s
      leftLoop lexer isAnd (parseNot fuel) (fun _ l r => actions.reduce (.and l r)) fuel e s

def parseNot : Nat → Look L → Except E (Look L × V .not)
  | 0, _ => .error lexer.diverges
  | fuel + 1, s => do
      let (s, ahead) ← s.peek lexer
      match ahead with
      | some .not => finish (parseNot fuel) (fun e => actions.reduce (.not e)) s.shift
      | _ => finish (parseCmp fuel) (fun e => actions.reduce (.notUnit e)) s

def parseCmp : Nat → Look L → Except E (Look L × V .cmp)
  | 0, _ => .error lexer.diverges
  | fuel + 1, s => do
      let (s, l) ← parseAdditive fuel s
      cmpRest lexer actions fuel (parseAdditive fuel) l s

def parseAdditive : Nat → Look L → Except E (Look L × V .additive)
  | 0, _ => .error lexer.diverges
  | fuel + 1, s => do
      let (s, e) ← finish (parseMultiplicative fuel) (fun e => actions.reduce (.additiveUnit e)) s
      leftLoop lexer isAdditive (parseMultiplicative fuel)
        (fun op l r => actions.reduce (.additive op l r)) fuel e s

def parseMultiplicative : Nat → Look L → Except E (Look L × V .multiplicative)
  | 0, _ => .error lexer.diverges
  | fuel + 1, s => do
      let (s, e) ← finish (parseAtom fuel) (fun e => actions.reduce (.multiplicativeUnit e)) s
      leftLoop lexer isMultiplicative (parseAtom fuel)
        (fun op l r => actions.reduce (.multiplicative op l r)) fuel e s

def parseAtom : Nat → Look L → Except E (Look L × V .atom)
  | 0, _ => .error lexer.diverges
  | fuel + 1, s => do
      let (s, ahead) ← s.peek lexer
      match ahead with
      | some (.datum d) => do
          let v ← actions.value d
          let e ← actions.reduce (.value v)
          return (s.shift, e)
      | some .lparen => do
          let (s, e) ← parseOr fuel s.shift
          let s ← s.expect lexer .rparen
          let e ← actions.reduce (.paren e)
          return (s, e)
      | _ => .error lexer.syntaxError

end

end Parser

/-! ### The two parsers -/

/-- The actions of `execute.y`. -/
def evalActions (build : Build) (columns : Columns) : Actions Stop Nonterminal.Value Datum where
  value := valueAction columns
  reduce {n} r :=
    match n, r with
    | _, .orUnit e | _, .andUnit e | _, .notUnit e => .ok e
    | _, .or l r => .ok (ofBool (l ≠ 0 || r ≠ 0))
    | _, .and l r => .ok (ofBool (l ≠ 0 && r ≠ 0))
    | _, .not e => .ok (ofBool (e = 0))
    | _, .cmpUnit e => do
        let zeroed ← call (datumZeroed build e)
        return ofBool (! zeroed)
    | _, .cmp op l r => cmpAction build op l r
    | _, .like l r => likeAction build l r
    | _, .isIn l v vs => inAction build l (v :: vs)
    | _, .between x a b => betweenAction build x a b
    | _, .notLike l r => notLikeAction build l r
    | _, .notIn l v vs => notInAction build l (v :: vs)
    | _, .notBetween x a b => notBetweenAction build x a b
    | _, .additiveUnit e | _, .multiplicativeUnit e => .ok e
    | _, .additive op l r => additiveAction build op l r
    | _, .multiplicative op l r => multiplicativeAction build op l r
    | _, .value v => .ok v
    | _, .paren e => .ok (makeBigint e)

/-- The tree of an expression. -/
def treeActions : Actions E Tree Datum where
  value d := .ok d
  reduce {n} r :=
    match n, r with
    | _, .orUnit e => .ok (.orUnit e)
    | _, .or l r => .ok (.or l r)
    | _, .andUnit e => .ok (.andUnit e)
    | _, .and l r => .ok (.and l r)
    | _, .notUnit e => .ok (.notUnit e)
    | _, .not e => .ok (.not e)
    | _, .cmpUnit e => .ok (.cmpUnit e)
    | _, .cmp op l r => .ok (.cmp op l r)
    | _, .like l r => .ok (.like l r)
    | _, .isIn l v vs => .ok (.isIn l v vs)
    | _, .between x a b => .ok (.between x a b)
    | _, .notLike l r => .ok (.notLike l r)
    | _, .notIn l v vs => .ok (.notIn l v vs)
    | _, .notBetween x a b => .ok (.notBetween x a b)
    | _, .additiveUnit e => .ok (.additiveUnit e)
    | _, .additive op l r => .ok (.additive op l r)
    | _, .multiplicativeUnit e => .ok (.multiplicativeUnit e)
    | _, .multiplicative op l r => .ok (.multiplicative op l r)
    | _, .value v => .ok (.value v)
    | _, .paren e => .ok (.paren e)

end Scroller.Execute

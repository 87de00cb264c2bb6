import Mathlib.Data.List.Lex
import Scroller.Execute
import Scroller.Lib.Wildcard

/-!
# What WHERE expressions mean

The meaning of an expression is a datum. Truth values are the integers 0 and 1 as `BIGINT`, integers are
calculated without a bound and have to fit the type, characters are compared without the blanks at their
end.
-/

namespace Scroller

/-- The expressions of the language. A value is a literal or the name of a column. -/
inductive Expr where
  | value (v : Datum)
  | paren (e : Expr)
  | or (l r : Expr)
  | and (l r : Expr)
  | not (e : Expr)
  | cmp (op : CmpOp) (l r : Expr)
  | like (negated : Bool) (l r : Expr)
  | isIn (negated : Bool) (l : Expr) (vs : List Datum)
  | between (negated : Bool) (x a b : Expr)
  | additive (op : AdditiveOp) (l r : Expr)
  | multiplicative (op : MultiplicativeOp) (l r : Expr)
deriving DecidableEq

/-- Why an expression has no value. -/
inductive Undefined where
  | mismatch
  | unknownColumn
  | arithmetic
deriving DecidableEq, Repr

namespace Datum

/-- The characters that count in a comparison. -/
def text (d : Datum) : List UInt8 := if d.type = .char then charToVarchar d.character else d.character

/-- An integer is true unless it is zero, a string unless it is empty. -/
def truth (d : Datum) : Bool :=
  match d.type.group with
  | .integer => d.integer.toInt ≠ 0
  | .character | .unknown => d.character.headD 0 ≠ 0

def ofTruth (b : Bool) : Datum := makeBigint (if b then 1 else 0)

/-- The order of two comparable data. -/
def order (d1 d2 : Datum) : Ordering :=
  match d1.type.group with
  | .integer => compare d1.integer.toInt d2.integer.toInt
  | .character | .unknown =>
      if d1.text < d2.text then .lt else if d1.text = d2.text then .eq else .gt

/-- An integer as a datum. -/
def ofInt (n : Int) : Except Undefined Datum :=
  if -2 ^ 63 ≤ n ∧ n < 2 ^ 63 then .ok (makeBigint (.ofInt n)) else .error .arithmetic

end Datum

/-- Whether an operator holds of data in this order. -/
def CmpOp.holds (op : CmpOp) (order : Ordering) : Bool :=
  match op with
  | .eq => order = .eq
  | .ne => order ≠ .eq
  | .lt => order = .lt
  | .le => order ≠ .gt
  | .gt => order = .gt
  | .ge => order ≠ .lt

namespace Expr

/-- The columns of a row by their names. -/
abbrev Row := List UInt8 → Option Datum

def require (b : Bool) : Except Undefined Unit := if b then .ok () else .error .mismatch

/-- A literal is its own value; a name needs a column of a known type. -/
def valueOf (row : Row) (v : Datum) : Except Undefined Datum :=
  match if v.type = .name then row v.character else some v with
  | none => .error .unknownColumn
  | some d => if d.type.group = .unknown then .error .unknownColumn else .ok d

def comparison (op : CmpOp) (d1 d2 : Datum) : Except Undefined Datum := do
  require (dataComparable d1 d2)
  return .ofTruth (op.holds (d1.order d2))

/-- Whether a datum is equal to one of a list. It has to be comparable with the data up to that one. -/
def member (d : Datum) (vs : List Datum) : Except Undefined Bool :=
  match vs.find? fun v => ! dataComparable d v || d.order v = .eq with
  | none => return false
  | some v => do
      require (dataComparable d v)
      return true

/-- The operations on integers. -/
def calculate (f : Int → Int → Int) (d1 d2 : Datum) : Except Undefined Datum := do
  require (dataArithmetical d1 d2)
  Datum.ofInt (f d1.integer.toInt d2.integer.toInt)

def divide (f : Int → Int → Int) (d1 d2 : Datum) : Except Undefined Datum := do
  require (dataArithmetical d1 d2)
  if d2.integer.toInt = 0 then .error .arithmetic
  else Datum.ofInt (f d1.integer.toInt d2.integer.toInt)

def calcAdditive (op : AdditiveOp) (d1 d2 : Datum) : Except Undefined Datum :=
  match op with
  | .add => calculate (· + ·) d1 d2
  | .sub => calculate (· - ·) d1 d2
  | .concat => do
      require (dataLexical d1 d2)
      return makeChar (d1.character ++ d2.character)

def calcMultiplicative (op : MultiplicativeOp) (d1 d2 : Datum) : Except Undefined Datum :=
  match op with
  | .mul => calculate (· * ·) d1 d2
  | .div => divide Int.tdiv d1 d2
  | .mod => divide Int.tmod d1 d2

/-- The value of an expression for a row. -/
def denote (row : Row) : Expr → Except Undefined Datum
  | .value v => valueOf row v
  | .paren e => e.denote row
  | .or l r => do
      let l ← l.denote row
      let r ← r.denote row
      return .ofTruth (l.truth || r.truth)
  | .and l r => do
      let l ← l.denote row
      let r ← r.denote row
      return .ofTruth (l.truth && r.truth)
  | .not e => do
      let e ← e.denote row
      return .ofTruth (! e.truth)
  | .cmp op l r => do
      let l ← l.denote row
      let r ← r.denote row
      comparison op l r
  | .like negated l r => do
      let l ← l.denote row
      let r ← r.denote row
      require (dataLexical l r)
      return .ofTruth (negated ^^ Wildcard.accepts 95 37 r.text l.text)
  | .isIn negated l vs => do
      let l ← l.denote row
      let vs ← vs.mapM (valueOf row)
      let found ← member l vs
      return .ofTruth (negated ^^ found)
  | .between negated x a b => do
      let x ← x.denote row
      let a ← a.denote row
      let b ← b.denote row
      require (dataArithmetical x a)
      require (dataArithmetical x b)
      return .ofTruth (negated ^^ (CmpOp.ge.holds (x.order a) && CmpOp.le.holds (x.order b)))
  | .additive op l r => do
      let l ← l.denote row
      let r ← r.denote row
      calcAdditive op l r
  | .multiplicative op l r => do
      let l ← l.denote row
      let r ← r.denote row
      calcMultiplicative op l r

end Expr

/-- The expression that a tree of the second parser stands for. -/
def Execute.Tree.ast : {n : Nonterminal} → Execute.Tree n → Expr
  | _, .orUnit e => e.ast
  | _, .or l r => .or l.ast r.ast
  | _, .andUnit e => e.ast
  | _, .and l r => .and l.ast r.ast
  | _, .notUnit e => e.ast
  | _, .not e => .not e.ast
  | _, .cmpUnit e => e.ast
  | _, .cmp op l r => .cmp op l.ast r.ast
  | _, .like l r => .like false l.ast r.ast
  | _, .isIn l v vs => .isIn false l.ast (v :: vs)
  | _, .between x a b => .between false x.ast a.ast b.ast
  | _, .notLike l r => .like true l.ast r.ast
  | _, .notIn l v vs => .isIn true l.ast (v :: vs)
  | _, .notBetween x a b => .between true x.ast a.ast b.ast
  | _, .additiveUnit e => e.ast
  | _, .additive op l r => .additive op l.ast r.ast
  | _, .multiplicativeUnit e => e.ast
  | _, .multiplicative op l r => .multiplicative op l.ast r.ast
  | _, .value v => .value v
  | _, .paren e => .paren e.ast

end Scroller

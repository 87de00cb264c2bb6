import Scroller.DatumOps

/-!
# Evaluating WHERE expressions

The rules of `execute.y` for expressions. A tree has a node for every rule that the second parser reduces by,
and its value is what the actions of its rules compute, from left to right. The rule `expr: or_expr` has no
node.
-/

namespace Scroller

inductive CmpOp where
  | eq
  | ne
  | lt
  | le
  | gt
  | ge
deriving DecidableEq, Repr

inductive AdditiveOp where
  | add
  | sub
  | concat
deriving DecidableEq, Repr

inductive MultiplicativeOp where
  | mul
  | div
  | mod
deriving DecidableEq, Repr

/-- The tokens of `execute.y` with their values. The operators of one rule are one token each with the
operator. -/
inductive BcNode where
  | create
  | user
  | catalog
  | schema
  | table
  | startTran
  | commit
  | rollback
  | insert
  | delete
  | select
  | wher
  | loopBegin (integer : Nat)
  | loopEnd (integer : Nat)
  | arrayBegin
  | arrayEnd
  | string (str : List UInt8)
  | datum (datum : Datum)
  | type (type : DatumType)
  | size (size : UInt64)
  | or
  | and
  | cmp (op : CmpOp)
  | additive (op : AdditiveOp)
  | multiplicative (op : MultiplicativeOp)
  | lparen
  | rparen
  | not
  | like
  | isIn
  | between
  | notLike
  | notIn
  | notBetween
deriving DecidableEq, Repr

/-- The left sides of the rules for expressions, `or` for `or_expr` and so on. -/
inductive Nonterminal where
  | or
  | and
  | not
  | cmp
  | additive
  | multiplicative
  | atom
deriving DecidableEq, Repr

namespace Execute

inductive Tree : Nonterminal → Type where
  | orUnit (e : Tree .and) : Tree .or
  | or (l : Tree .or) (r : Tree .and) : Tree .or
  | andUnit (e : Tree .not) : Tree .and
  | and (l : Tree .and) (r : Tree .not) : Tree .and
  | notUnit (e : Tree .cmp) : Tree .not
  | not (e : Tree .not) : Tree .not
  | cmpUnit (e : Tree .additive) : Tree .cmp
  | cmp (op : CmpOp) (l r : Tree .additive) : Tree .cmp
  | like (l r : Tree .additive) : Tree .cmp
  | isIn (l : Tree .additive) (v : Datum) (vs : List Datum) : Tree .cmp
  | between (x a b : Tree .additive) : Tree .cmp
  | notLike (l r : Tree .additive) : Tree .cmp
  | notIn (l : Tree .additive) (v : Datum) (vs : List Datum) : Tree .cmp
  | notBetween (x a b : Tree .additive) : Tree .cmp
  | additiveUnit (e : Tree .multiplicative) : Tree .additive
  | additive (op : AdditiveOp) (l : Tree .additive) (r : Tree .multiplicative) : Tree .additive
  | multiplicativeUnit (e : Tree .atom) : Tree .multiplicative
  | multiplicative (op : MultiplicativeOp) (l : Tree .multiplicative) (r : Tree .atom) :
      Tree .multiplicative
  | value (v : Datum) : Tree .atom
  | paren (e : Tree .or) : Tree .atom
deriving DecidableEq

/-- An atom, without operators around it. -/
abbrev Tree.ofAtom (e : Tree .atom) : Tree .additive := .additiveUnit (.multiplicativeUnit e)

/-- A predicate, without logical operators around it. -/
abbrev Tree.ofCmp (e : Tree .cmp) : Tree .or := .orUnit (.andUnit (.notUnit e))

/-- The tokens below a node. -/
def Tree.tokens : {n : Nonterminal} → Tree n → List BcNode
  | _, .orUnit e => e.tokens
  | _, .or l r => l.tokens ++ .or :: r.tokens
  | _, .andUnit e => e.tokens
  | _, .and l r => l.tokens ++ .and :: r.tokens
  | _, .notUnit e => e.tokens
  | _, .not e => .not :: e.tokens
  | _, .cmpUnit e => e.tokens
  | _, .cmp op l r => l.tokens ++ .cmp op :: r.tokens
  | _, .like l r => l.tokens ++ .like :: r.tokens
  | _, .isIn l v vs => l.tokens ++ .isIn :: .lparen :: .datum v :: vs.map .datum ++ [.rparen]
  | _, .between x a b => x.tokens ++ .between :: a.tokens ++ b.tokens
  | _, .notLike l r => l.tokens ++ .notLike :: r.tokens
  | _, .notIn l v vs => l.tokens ++ .notIn :: .lparen :: .datum v :: vs.map .datum ++ [.rparen]
  | _, .notBetween x a b => x.tokens ++ .notBetween :: a.tokens ++ b.tokens
  | _, .additiveUnit e => e.tokens
  | _, .additive op l r => l.tokens ++ .additive op :: r.tokens
  | _, .multiplicativeUnit e => e.tokens
  | _, .multiplicative op l r => l.tokens ++ .multiplicative op :: r.tokens
  | _, .value v => [.datum v]
  | _, .paren e => .lparen :: e.tokens ++ [.rparen]

/-- `select_where` and `delete_where`: a line for every row. -/
inductive Lines where
  | line (e : Tree .or)
  | more (ls : Lines) (e : Tree .or)

namespace Lines

def tokens : Lines → List BcNode
  | .line e => e.tokens
  | .more ls e => ls.tokens ++ e.tokens

def trees : Lines → List (Tree .or)
  | .line e => [e]
  | .more ls e => ls.trees ++ [e]

end Lines

/-! ### Actions -/

/-- Why the second parser does not go on: a token is out of place, an action sends
`SCRS_DATUM_TYPE_MISMATCH` and aborts it, or an action does not return. -/
inductive Stop where
  | syntaxError
  | mismatch
  | fault (fault : Fault)
deriving DecidableEq, Repr

/-- A call from an action. -/
def call {α : Type} (x : Except Fault α) : Except Stop α := x.mapError .fault

/-- The column of the current row with a name: none if there is no such row or no such column. -/
abbrev Columns := List UInt8 → Except Fault (Option Datum)

def ofBool (b : Bool) : Int64 := if b then 1 else 0

/-- `eq_data` to `ge_data` on the result of `cmp_data`. -/
def cmpTest (op : CmpOp) (cmp : Int) : Bool :=
  match op with
  | .eq => cmp = 0
  | .ne => cmp ≠ 0
  | .lt => cmp < 0
  | .le => cmp ≤ 0
  | .gt => cmp > 0
  | .ge => cmp ≥ 0

/-- A check that sends the mismatch. -/
def check (b : Bool) : Except Stop Unit := if b then .ok () else .error .mismatch

/-- The action of `value`; an unknown name is its own value. -/
def valueAction (columns : Columns) (v : Datum) : Except Stop Datum :=
  if v.type = .name then do
    let column ← call (columns v.character)
    return column.getD v
  else return v

/-- The actions of `=`, `<>`, `<`, `<=`, `>` and `>=`. -/
def cmpAction (build : Build) (op : CmpOp) (d1 d2 : Datum) : Except Stop Int64 := do
  check (dataComparable d1 d2)
  let cmp ← call (cmpData build d1 d2)
  return ofBool (cmpTest op cmp)

def likeAction (build : Build) (d1 d2 : Datum) : Except Stop Int64 := do
  check (dataLexical d1 d2)
  let found ← call (likeData build d1 d2)
  return ofBool found

def notLikeAction (build : Build) (d1 d2 : Datum) : Except Stop Int64 := do
  check (dataLexical d1 d2)
  let found ← call (likeData build d1 d2)
  return ofBool (! found)

/-- The loop over the list of `IN`. -/
def findEqual (build : Build) (d : Datum) : List Datum → Except Stop Bool
  | [] => return false
  | v :: vs => do
      check (dataComparable d v)
      let cmp ← call (cmpData build d v)
      if cmp = 0 then return true else findEqual build d vs

def inAction (build : Build) (d : Datum) (vs : List Datum) : Except Stop Int64 := do
  let found ← findEqual build d vs
  return ofBool found

def notInAction (build : Build) (d : Datum) (vs : List Datum) : Except Stop Int64 := do
  let found ← findEqual build d vs
  return ofBool (! found)

/-- `ge_data($1, $3) && le_data($1, $4)`. -/
def betweenData (build : Build) (x a b : Datum) : Except Fault Bool := do
  let low ← cmpData build x a
  if cmpTest .ge low then do
    let high ← cmpData build x b
    return cmpTest .le high
  else return false

def betweenAction (build : Build) (x a b : Datum) : Except Stop Int64 := do
  check (dataArithmetical x a)
  check (dataArithmetical x b)
  let found ← call (betweenData build x a b)
  return ofBool found

/-- The action of `NOT_BETWEEN` computes what that of `BETWEEN` does. -/
def notBetweenAction (build : Build) (x a b : Datum) : Except Stop Int64 := do
  check (dataArithmetical x a)
  check (dataArithmetical x b)
  let found ← call (betweenData build x a b)
  return ofBool found

def additiveAction (build : Build) (op : AdditiveOp) (d1 d2 : Datum) : Except Stop Datum :=
  match op with
  | .add => do
      check (dataArithmetical d1 d2)
      call (addData build d1 d2)
  | .sub => do
      check (dataArithmetical d1 d2)
      call (subData build d1 d2)
  | .concat => do
      check (dataLexical d1 d2)
      call (catData build d1 d2)

def multiplicativeAction (build : Build) (op : MultiplicativeOp) (d1 d2 : Datum) :
    Except Stop Datum :=
  match op with
  | .mul => do
      check (dataArithmetical d1 d2)
      call (mulData build d1 d2)
  | .div => do
      check (dataArithmetical d1 d2)
      call (divData build d1 d2)
  | .mod => do
      check (d1.type.group = .integer && d2.type.group = .integer)
      call (modData build d1 d2)

/-! ### Values -/

end Execute

/-- The type of the values of a left side. -/
abbrev Nonterminal.Value : Nonterminal → Type
  | .or | .and | .not | .cmp => Int64
  | .additive | .multiplicative | .atom => Datum

namespace Execute

/-- The value of a tree for the current row. -/
def Tree.eval (build : Build) (columns : Columns) : {n : Nonterminal} → Tree n → Except Stop n.Value
  | _, .orUnit e => e.eval build columns
  | _, .or l r => do
      let l ← l.eval build columns
      let r ← r.eval build columns
      return ofBool (l ≠ 0 || r ≠ 0)
  | _, .andUnit e => e.eval build columns
  | _, .and l r => do
      let l ← l.eval build columns
      let r ← r.eval build columns
      return ofBool (l ≠ 0 && r ≠ 0)
  | _, .notUnit e => e.eval build columns
  | _, .not e => do
      let e ← e.eval build columns
      return ofBool (e = 0)
  | _, .cmpUnit e => do
      let d ← e.eval build columns
      let zeroed ← call (datumZeroed build d)
      return ofBool (! zeroed)
  | _, .cmp op l r => do
      let l ← l.eval build columns
      let r ← r.eval build columns
      cmpAction build op l r
  | _, .like l r => do
      let l ← l.eval build columns
      let r ← r.eval build columns
      likeAction build l r
  | _, .isIn l v vs => do
      let l ← l.eval build columns
      let vs ← (v :: vs).mapM (valueAction columns)
      inAction build l vs
  | _, .between x a b => do
      let x ← x.eval build columns
      let a ← a.eval build columns
      let b ← b.eval build columns
      betweenAction build x a b
  | _, .notLike l r => do
      let l ← l.eval build columns
      let r ← r.eval build columns
      notLikeAction build l r
  | _, .notIn l v vs => do
      let l ← l.eval build columns
      let vs ← (v :: vs).mapM (valueAction columns)
      notInAction build l vs
  | _, .notBetween x a b => do
      let x ← x.eval build columns
      let a ← a.eval build columns
      let b ← b.eval build columns
      notBetweenAction build x a b
  | _, .additiveUnit e => e.eval build columns
  | _, .additive op l r => do
      let l ← l.eval build columns
      let r ← r.eval build columns
      additiveAction build op l r
  | _, .multiplicativeUnit e => e.eval build columns
  | _, .multiplicative op l r => do
      let l ← l.eval build columns
      let r ← r.eval build columns
      multiplicativeAction build op l r
  | _, .value v => valueAction columns v
  | _, .paren e => do
      let e ← e.eval build columns
      return makeBigint e

end Execute

end Scroller

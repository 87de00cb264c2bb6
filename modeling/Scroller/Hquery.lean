import Scroller.Reference

/-!
# The query grammar

The rules of `hquery.y` for expressions, with the tokens they read and the tokens that their actions put into
the bytecode.
-/

namespace Scroller.Hquery

/-- The tokens of `hquery.y` with their values. The operators of one rule are one token each with the
operator. -/
inductive Token where
  | user
  | catalog
  | string (str : List UInt8)
  | id (str : List UInt8)
  | create
  | schema
  | table
  | start
  | transaction
  | commit
  | rollback
  | insert
  | into
  | values
  | delete
  | select
  | fro
  | wher
  | smallint
  | integer
  | bigint
  | character
  | char
  | varchar
  | varying
  | or
  | and
  | cmp (op : CmpOp)
  | additive (op : AdditiveOp)
  | multiplicative (op : MultiplicativeOp)
  | lparen
  | rparen
  | not
  | like
  | isIn
  | between
  | vinteger (integer : Int64)
  | comma
  | dot
  | semicolon
  | newline
deriving DecidableEq, Repr

/-- The rules of `value`. -/
inductive Value where
  | vinteger (integer : Int64)
  | string (str : List UInt8)
  | id (str : List UInt8)
deriving DecidableEq, Repr

namespace Value

def token : Value → Token
  | .vinteger integer => .vinteger integer
  | .string str => .string str
  | .id str => .id str

/-- The datum of the token that the action of a value puts. -/
def datum : Value → Datum
  | .vinteger integer => makeBigint integer
  | .string str => makeChar str
  | .id str => makeName str

end Value

/-- A tree has a node for every rule; `primary_expr` is the left side `atom`. -/
inductive Tree : Nonterminal → Type where
  | orUnit (e : Tree .and) : Tree .or
  | or (l : Tree .or) (r : Tree .and) : Tree .or
  | andUnit (e : Tree .not) : Tree .and
  | and (l : Tree .and) (r : Tree .not) : Tree .and
  | notUnit (e : Tree .cmp) : Tree .not
  | not (e : Tree .not) : Tree .not
  | cmpUnit (e : Tree .additive) : Tree .cmp
  | cmp (op : CmpOp) (l r : Tree .additive) : Tree .cmp
  | like (l r : Tree .additive) : Tree .cmp
  | isIn (l : Tree .additive) (v : Value) (vs : List Value) : Tree .cmp
  | between (x a b : Tree .additive) : Tree .cmp
  | notIn (l : Tree .additive) (v : Value) (vs : List Value) : Tree .cmp
  | notLike (l r : Tree .additive) : Tree .cmp
  | notBetween (x a b : Tree .additive) : Tree .cmp
  | additiveUnit (e : Tree .multiplicative) : Tree .additive
  | additive (op : AdditiveOp) (l : Tree .additive) (r : Tree .multiplicative) : Tree .additive
  | multiplicativeUnit (e : Tree .atom) : Tree .multiplicative
  | multiplicative (op : MultiplicativeOp) (l : Tree .multiplicative) (r : Tree .atom) :
      Tree .multiplicative
  | value (v : Value) : Tree .atom
  | paren (e : Tree .or) : Tree .atom
deriving DecidableEq

namespace Tree

/-- The tokens of the query below a node. -/
def tokens : {n : Nonterminal} → Tree n → List Token
  | _, .orUnit e => e.tokens
  | _, .or l r => l.tokens ++ .or :: r.tokens
  | _, .andUnit e => e.tokens
  | _, .and l r => l.tokens ++ .and :: r.tokens
  | _, .notUnit e => e.tokens
  | _, .not e => .not :: e.tokens
  | _, .cmpUnit e => e.tokens
  | _, .cmp op l r => l.tokens ++ .cmp op :: r.tokens
  | _, .like l r => l.tokens ++ .like :: r.tokens
  | _, .isIn l v vs =>
      l.tokens ++ .isIn :: .lparen :: v.token :: vs.flatMap (fun v => [.comma, v.token]) ++ [.rparen]
  | _, .between x a b => x.tokens ++ .between :: a.tokens ++ .and :: b.tokens
  | _, .notIn l v vs =>
      l.tokens ++ .not :: .isIn :: .lparen :: v.token ::
        vs.flatMap (fun v => [.comma, v.token]) ++ [.rparen]
  | _, .notLike l r => l.tokens ++ .not :: .like :: r.tokens
  | _, .notBetween x a b => x.tokens ++ .not :: .between :: a.tokens ++ .and :: b.tokens
  | _, .additiveUnit e => e.tokens
  | _, .additive op l r => l.tokens ++ .additive op :: r.tokens
  | _, .multiplicativeUnit e => e.tokens
  | _, .multiplicative op l r => l.tokens ++ .multiplicative op :: r.tokens
  | _, .value v => [v.token]
  | _, .paren e => .lparen :: e.tokens ++ [.rparen]

/-- The tokens that the actions below a node put, in their order. -/
def emitted : {n : Nonterminal} → Tree n → List BcNode
  | _, .orUnit e => e.emitted
  | _, .or l r => l.emitted ++ .or :: r.emitted
  | _, .andUnit e => e.emitted
  | _, .and l r => l.emitted ++ .and :: r.emitted
  | _, .notUnit e => e.emitted
  | _, .not e => .not :: e.emitted
  | _, .cmpUnit e => e.emitted
  | _, .cmp op l r => l.emitted ++ .cmp op :: r.emitted
  | _, .like l r => l.emitted ++ .like :: r.emitted
  | _, .isIn l v vs =>
      l.emitted ++ .isIn :: .lparen :: .datum v.datum :: vs.map (fun v => .datum v.datum) ++ [.rparen]
  | _, .between x a b => x.emitted ++ .between :: a.emitted ++ b.emitted
  | _, .notIn l v vs =>
      l.emitted ++ .notIn :: .lparen :: .datum v.datum :: vs.map (fun v => .datum v.datum) ++ [.rparen]
  | _, .notLike l r => l.emitted ++ .notLike :: r.emitted
  | _, .notBetween x a b => x.emitted ++ .notBetween :: a.emitted ++ b.emitted
  | _, .additiveUnit e => e.emitted
  | _, .additive op l r => l.emitted ++ .additive op :: r.emitted
  | _, .multiplicativeUnit e => e.emitted
  | _, .multiplicative op l r => l.emitted ++ .multiplicative op :: r.emitted
  | _, .value v => [.datum v.datum]
  | _, .paren e => .lparen :: e.emitted ++ [.rparen]

/-- The same tree of the second parser. -/
def translate : {n : Nonterminal} → Tree n → Execute.Tree n
  | _, .orUnit e => .orUnit e.translate
  | _, .or l r => .or l.translate r.translate
  | _, .andUnit e => .andUnit e.translate
  | _, .and l r => .and l.translate r.translate
  | _, .notUnit e => .notUnit e.translate
  | _, .not e => .not e.translate
  | _, .cmpUnit e => .cmpUnit e.translate
  | _, .cmp op l r => .cmp op l.translate r.translate
  | _, .like l r => .like l.translate r.translate
  | _, .isIn l v vs => .isIn l.translate v.datum (vs.map Value.datum)
  | _, .between x a b => .between x.translate a.translate b.translate
  | _, .notIn l v vs => .notIn l.translate v.datum (vs.map Value.datum)
  | _, .notLike l r => .notLike l.translate r.translate
  | _, .notBetween x a b => .notBetween x.translate a.translate b.translate
  | _, .additiveUnit e => .additiveUnit e.translate
  | _, .additive op l r => .additive op l.translate r.translate
  | _, .multiplicativeUnit e => .multiplicativeUnit e.translate
  | _, .multiplicative op l r => .multiplicative op l.translate r.translate
  | _, .value v => .value v.datum
  | _, .paren e => .paren e.translate

/-- The expression that a tree stands for. -/
def ast : {n : Nonterminal} → Tree n → Expr
  | _, .orUnit e => e.ast
  | _, .or l r => .or l.ast r.ast
  | _, .andUnit e => e.ast
  | _, .and l r => .and l.ast r.ast
  | _, .notUnit e => e.ast
  | _, .not e => .not e.ast
  | _, .cmpUnit e => e.ast
  | _, .cmp op l r => .cmp op l.ast r.ast
  | _, .like l r => .like false l.ast r.ast
  | _, .isIn l v vs => .isIn false l.ast (v.datum :: vs.map Value.datum)
  | _, .between x a b => .between false x.ast a.ast b.ast
  | _, .notIn l v vs => .isIn true l.ast (v.datum :: vs.map Value.datum)
  | _, .notLike l r => .like true l.ast r.ast
  | _, .notBetween x a b => .between true x.ast a.ast b.ast
  | _, .additiveUnit e => e.ast
  | _, .additive op l r => .additive op l.ast r.ast
  | _, .multiplicativeUnit e => e.ast
  | _, .multiplicative op l r => .multiplicative op l.ast r.ast
  | _, .value v => .value v.datum
  | _, .paren e => .paren e.ast

end Tree

end Scroller.Hquery

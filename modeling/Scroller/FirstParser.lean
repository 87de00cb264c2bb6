import Scroller.Bc
import Scroller.HqueryCmd
import Scroller.Lib.Descent

/-!
# The first parser

The rules of `hquery.y` for a command, and the loop over the queries of a session with the recovery from errors. Left
recursion is a loop, and a rule with one token to go on with is reduced before the next token is read.
-/

namespace Scroller.Hquery

open Descent

/-- The tokens that are left, and the bytecode that the actions have put. -/
abbrev Y1 := Descent.State Token BcNode

namespace Y1

def misplaced {α : Type} (s : Y1) : Except (Halt Token BcNode) α := .error (.misplaced s)

/-! ### Values and names -/

def ident (s : Y1) : Except (Halt Token BcNode) (Y1 × List UInt8) :=
  match s.tokens.head? with
  | some (.id str) => return (s.shift, str)
  | _ => misplaced s

/-- `ID '.' ID`. -/
def table (s : Y1) : Except (Halt Token BcNode) (Y1 × List UInt8 × List UInt8) := do
  let (s, schema) ← ident s
  let s ← s.expect .dot
  let (s, table) ← ident s
  return (s, schema, table)

/-- `value`. -/
def value : Parser Token BcNode := fun s =>
  match s.tokens.head? with
  | some (.vinteger integer) => return s.shift.put [.datum (makeBigint integer)]
  | some (.string str) => return s.shift.put [.datum (makeChar str)]
  | some (.id str) => return s.shift.put [.datum (makeName str)]
  | _ => misplaced s

def values (fuel : Nat) : Parser Token BcNode := list .comma value fuel

/-- The `ID` of `ids`. -/
def name : Parser Token BcNode := fun s => do
  let (s, str) ← ident s
  return s.put [.string str]

def ids (fuel : Nat) : Parser Token BcNode := list .comma name fuel

/-- `type`. -/
def type : Parser Token BcNode := fun s =>
  match s.tokens.head? with
  | some .smallint => return s.shift.put [.size 0, .type .smallint]
  | some .integer => return s.shift.put [.size 0, .type .integer]
  | some .bigint => return s.shift.put [.size 0, .type .bigint]
  | some .character | some .char => do
      let s ← s.shift.expect .lparen
      match s.tokens.head? with
      | some (.vinteger size) => do
          let s ← s.shift.expect .rparen
          return s.put [.size size.toUInt64, .type .char]
      | _ => misplaced s
  | _ => misplaced s

/-- `decl`. -/
def decl : Parser Token BcNode := fun s => do
  let (s, name) ← ident s
  let s ← type s
  return s.put [.string name]

def decls (fuel : Nat) : Parser Token BcNode := list .comma decl fuel

/-! ### Expressions -/

def isOr : Token → Option BcNode
  | .or => some .or
  | _ => none

def isAnd : Token → Option BcNode
  | .and => some .and
  | _ => none

def isAdditive : Token → Option BcNode
  | .additive op => some (.additive op)
  | _ => none

def isMultiplicative : Token → Option BcNode
  | .multiplicative op => some (.multiplicative op)
  | _ => none

/-- `'(' values ')'` behind `IN`, with the token that is put for `IN`. -/
def inList (fuel : Nat) (node : BcNode) : Parser Token BcNode := fun s => do
  let s ← s.expect .lparen
  let s ← values fuel (s.put [node, .lparen])
  let s ← s.expect .rparen
  return s.put [.rparen]

/-- The bounds behind `BETWEEN`, with the token that is put for it. -/
def bounds (additive : Parser Token BcNode) (node : BcNode) : Parser Token BcNode := fun s => do
  let s ← additive (s.put [node])
  let s ← s.expect .and
  additive s

/-- The rest of `cmp_expr` behind its first operand. -/
def cmpRest (fuel : Nat) (additive : Parser Token BcNode) : Parser Token BcNode := fun s =>
  match s.tokens.head? with
  | some (.cmp op) => additive (s.shift.put [.cmp op])
  | some .like => additive (s.shift.put [.like])
  | some .isIn => inList fuel .isIn s.shift
  | some .between => bounds additive .between s.shift
  | some .not =>
      match s.shift.tokens.head? with
      | some .like => additive (s.shift.shift.put [.notLike])
      | some .isIn => inList fuel .notIn s.shift.shift
      | some .between => bounds additive .notBetween s.shift.shift
      | _ => misplaced s.shift
  | _ => return s

mutual

def parseOr : Nat → Parser Token BcNode
  | 0, _ => .error .diverges
  | fuel + 1, s => do
      let s ← parseAnd fuel s
      operators isOr (parseAnd fuel) fuel s

def parseAnd : Nat → Parser Token BcNode
  | 0, _ => .error .diverges
  | fuel + 1, s => do
      let s ← parseNot fuel s
      operators isAnd (parseNot fuel) fuel s

def parseNot : Nat → Parser Token BcNode
  | 0, _ => .error .diverges
  | fuel + 1, s =>
      if s.tokens.head? = some .not then parseNot fuel (s.shift.put [.not]) else parseCmp fuel s

def parseCmp : Nat → Parser Token BcNode
  | 0, _ => .error .diverges
  | fuel + 1, s => do
      let s ← parseAdditive fuel s
      cmpRest fuel (parseAdditive fuel) s

def parseAdditive : Nat → Parser Token BcNode
  | 0, _ => .error .diverges
  | fuel + 1, s => do
      let s ← parseMultiplicative fuel s
      operators isAdditive (parseMultiplicative fuel) fuel s

def parseMultiplicative : Nat → Parser Token BcNode
  | 0, _ => .error .diverges
  | fuel + 1, s => do
      let s ← parseAtom fuel s
      operators isMultiplicative (parseAtom fuel) fuel s

/-- `primary_expr`. -/
def parseAtom : Nat → Parser Token BcNode
  | 0, _ => .error .diverges
  | fuel + 1, s =>
      if s.tokens.head? = some .lparen then do
        let s ← parseOr fuel (s.shift.put [.lparen])
        let s ← s.expect .rparen
        return s.put [.rparen]
      else value s

end

/-! ### Commands -/

/-- `mb_where`. -/
def mbWhere (fuel : Nat) : Parser Token BcNode := fun s =>
  if s.tokens.head? = some .wher then do
    let s ← parseOr fuel (s.shift.put [.wher, .loopBegin 0])
    return s.put [.loopEnd 0]
  else return s

/-- The rules that start with `CREATE`; `catalog` says that the session has a catalog. -/
def create (catalog : Bool) (fuel : Nat) : Parser Token BcNode := fun s =>
  match s.tokens.head? with
  | some .user => do
      let (s, name) ← ident s.shift
      return s.put [.create, .user, .string name]
  | some .catalog => do
      let (s, name) ← ident s.shift
      return s.put [.create, .catalog, .string name]
  | some .schema => do
      let (s, name) ← ident s.shift
      return if catalog then s.put [.create, .schema, .string name] else s
  | some .table => do
      let (s, schema, table) ← table s.shift
      let s := if catalog then s.put [.create, .table, .string schema, .string table, .arrayBegin] else s
      let s ← s.expect .lparen
      let s ← decls fuel s
      let s ← s.expect .rparen
      return if catalog then s.put [.arrayEnd] else s
  | _ => misplaced s

/-- The rule of `INSERT`. -/
def insert (fuel : Nat) : Parser Token BcNode := fun s => do
  let s ← s.expect .into
  let (s, schema, table) ← table s
  let s ← (s.put [.insert, .string schema, .string table, .arrayBegin]).expect .lparen
  let s ← ids fuel s
  let s ← s.expect .rparen
  let s ← (s.put [.arrayEnd]).expect .values
  let s ← (s.put [.arrayBegin]).expect .lparen
  let s ← values fuel s
  let s ← s.expect .rparen
  return s.put [.arrayEnd]

/-- The rule of `DELETE`. -/
def delete (fuel : Nat) : Parser Token BcNode := fun s => do
  let s ← s.expect .fro
  let (s, schema, table) ← table s
  mbWhere fuel (s.put [.delete, .string schema, .string table])

/-- The rule of `SELECT`. -/
def select (fuel : Nat) : Parser Token BcNode := fun s => do
  let s ← ids fuel (s.put [.select, .arrayBegin])
  let s ← (s.put [.arrayEnd]).expect .fro
  let (s, schema, table) ← table s
  mbWhere fuel (s.put [.string schema, .string table])

def cmd (catalog : Bool) (fuel : Nat) : Parser Token BcNode := fun s =>
  match s.tokens.head? with
  | some .create => create catalog fuel s.shift
  | some .start => do
      let s ← s.shift.expect .transaction
      return s.put [.startTran]
  | some .commit => return s.shift.put [.commit]
  | some .rollback => return s.shift.put [.rollback]
  | some .insert => insert fuel s.shift
  | some .delete => delete fuel s.shift
  | some .select => select fuel s.shift
  | _ => misplaced s

/-- `cmd ';'`, with fuel for every way through the tokens. -/
def command (catalog : Bool) : Parser Token BcNode := fun s => do
  let s ← cmd catalog (7 * s.tokens.length + 8) s
  s.expect .semicolon

end Y1

/-! ### Queries -/

/-- What the actions of `queries` work on: whether the session has a catalog, the status that an empty query is
answered with, and `execute_cmd`, which says whether it returned zero. -/
structure SessionActions (S : Type) where
  catalog : S → Bool
  sendOk : S → S
  execute : S → Option (List BcNode) → Except Fault (S × Bool)

/-- Where the parser is between two commands: behind the header, a query, a `;`, or the token `error`. -/
inductive Behind where
  | header
  | query
  | semicolon
  | error
deriving DecidableEq

variable {S : Type}

/-- `queries` up to the end of the input, with what `y1parse` returns. The tokens that a command puts go into the array
of the session, and `cmd_reset` comes behind every command that was executed. Behind `error` the parser goes on with a
`;`, and without one it stops. -/
def queries (build : Build) (x : SessionActions S) :
    Nat → Behind → S → Bc BcNode → List Token → Except Fault (S × Nat)
  | 0, _, _, _, _ => .error .diverges
  | _ + 1, behind, a, _, [] => return (a, if behind = .query then 0 else 1)
  | fuel + 1, .error, a, bc, token :: tokens =>
      if token = .semicolon then queries build x fuel .semicolon a bc tokens
      else queries build x fuel .error a bc tokens
  | fuel + 1, behind, a, bc, token :: tokens =>
      if token = .newline then
        queries build x fuel .query (if behind = .semicolon then a else x.sendOk a) bc tokens
      else
        match Y1.command (x.catalog a) ⟨token :: tokens, []⟩ with
        | .ok s => do
            let bc ← bc.puts build s.out
            let (a, succeeded) ← x.execute a (bc.tokens.map DynArray.toList)
            queries build x fuel (if succeeded then .semicolon else .error) a (bc.reset build) s.tokens
        | .error (.misplaced s) => do
            let bc ← bc.puts build s.out
            -- the token that is out of place may be the `;` to go on with
            queries build x fuel .error a bc s.tokens
        | .error .diverges => .error .diverges

/-- `queries` behind a header, with fuel for all tokens and the array that `cmd_init` makes. -/
def serve (build : Build) (zero : BcNode) (x : SessionActions S) (a : S) (tokens : List Token) :
    Except Fault (S × Nat) :=
  queries build x (2 * tokens.length + 2) .header a (Bc.init build zero) tokens

end Scroller.Hquery

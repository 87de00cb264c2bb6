import Scroller.ExprParser
import Scroller.Table

/-!
# Bytecode with a loop

The lexer of the second parser, in `bc.c`. The tokens between `LOOP_BEGIN` and `LOOP_END` come once for every
row of its own iterator, and both tokens know the index of the other one. An invalid iterator without a page
is `none`.
-/

namespace Scroller.Execute

/-- `STACKSZ` of `bc_prepare`. -/
def stacksz : Nat := 64

/-- The body of the loop of `bc_prepare`, for the tokens and the stack of the indices of `LOOP_BEGIN`. -/
def prepareStep (s : List BcNode × List Nat) (i : Nat) :
    Except ScrcStatus (List BcNode × List Nat) :=
  match s.1[i]? with
  | some (.loopBegin _) =>
      if s.2.length = stacksz then .error .bytecodeStackOverflow else .ok (s.1, i :: s.2)
  | some (.loopEnd _) =>
      match s.2 with
      | [] => .error .bytecodeUnbalancedStack
      | beginIdx :: stack =>
          .ok ((s.1.set beginIdx (.loopBegin (i + 1))).set i (.loopEnd beginIdx), stack)
  | _ => .ok s

/-- `bc_prepare`, with the status that `execute_cmd` sends for its error. -/
def bcPrepare (tokens : List BcNode) : Except ScrcStatus (List BcNode) := do
  let (tokens, _) ← (List.range tokens.length).foldlM prepareStep (tokens, [])
  return tokens

/-- What `y2lex` changes of `Bc`, with the tokens that it has delivered. -/
structure BcItor where
  itor : Nat
  titor : Option Titor
  delivered : List BcNode

/-- `titor_is_valid`. -/
def titorValid (db : Db) : Option Titor → Bool
  | none => false
  | some t => titorIsValid db t

namespace BcItor

/-- The token with an index. -/
def deliver (tokens : List BcNode) (bc : BcItor) (i : Nat) : Except Stop (BcItor × Option BcNode) :=
  match tokens[i]? with
  | none => .error (.fault .outOfBounds)
  | some token => .ok ({ bc with itor := i + 1, delivered := bc.delivered ++ [token] }, some token)

/-- The token with an index, or the end. -/
def deliverOrEnd (tokens : List BcNode) (bc : BcItor) (i : Nat) :
    Except Stop (BcItor × Option BcNode) :=
  if i = tokens.length then .ok ({ bc with itor := i }, none) else bc.deliver tokens i

/-- `y2lex`. -/
def y2lex (cfg : Config) (fuel : Nat) (db : Db) (tokens : List BcNode) (bc : BcItor) :
    Except Stop (BcItor × Option BcNode) :=
  match tokens[bc.itor]? with
  | some (.loopBegin integer) =>
      if titorValid db bc.titor then bc.deliverOrEnd tokens (bc.itor + 1)
      else bc.deliverOrEnd tokens integer
  | some (.loopEnd integer) =>
      match bc.titor with
      | none => .error (.fault .nullPointer)
      | some titor => do
          let titor ← call (titorNext cfg fuel db titor)
          let bc := { bc with titor := some titor }
          if titorIsValid db titor then bc.deliver tokens (integer + 1)
          else bc.deliverOrEnd tokens (bc.itor + 1)
  | _ => bc.deliverOrEnd tokens bc.itor

end BcItor

def y2lexer (cfg : Config) (fuel : Nat) (db : Db) (tokens : List BcNode) : Lexer BcItor Stop where
  lex := BcItor.y2lex cfg fuel db tokens
  syntaxError := .syntaxError
  diverges := .fault .diverges

/-! ### Columns of the current row -/

/-- `hgrid_get_column`; `none` is `NULL`. -/
def hgridGetColumn (build : Build) (grid : Grid) (n : Nat) : Except Fault (Option Column) := do
  build.assert (n < grid.rown)
  return if n < grid.occupied then some (grid.columns n) else none

/-- The loop of `value` over the columns from index `i` on. -/
def findColumn (build : Build) (header : Grid) (name : List UInt8) :
    Nat → Nat → Except Fault (Option Nat)
  | 0, _ => .error .diverges
  | fuel + 1, i => do
      match ← hgridGetColumn build header i with
      | none => return none
      | some c => if name = c.name then return some i else findColumn build header name fuel (i + 1)

/-- What the action of `value` finds for a name in the row under `cmd->titor`. -/
def titorColumns (cfg : Config) (db : Db) (titor : Option Titor) : Columns := fun name =>
  match titor with
  | none => return none
  | some t =>
      if titorIsValid db t then do
        let header := db.pages t.m.gp.header
        match ← findColumn cfg.build header name (header.occupied + 1) 0 with
        | none => return none
        | some i => do
            let datum ← mitorGetDatum cfg db t.m i
            return some datum
      else return none

end Scroller.Execute

import Scroller.Cmd
import Scroller.Ddl
import Scroller.Tcl

/-!
# The second parser

The rules of `execute.y` for commands, with what their actions send, and `execute_cmd`. A rule with one token to
go on with is reduced before the next token is read.
-/

namespace Scroller.Execute

/-- What is sent to the client: a header with a status only and flushed, a header with `Body: Yes`, and the
parts of a body. `finish` is `SCRC_CMD_END`. -/
inductive Piece where
  | status (status : ScrcStatus)
  | bodyHeader
  | tabheader
  | column (column : Column)
  | finish
  | tabdata
  | row (size : Nat) (row : Row)

/-- What the actions work on, with the rows that expressions were evaluated for. -/
structure Work where
  db : Db
  session : Session
  sent : List Piece
  evaluated : List (Option Titor)

def Work.send (w : Work) (pieces : List Piece) : Work := { w with sent := w.sent ++ pieces }

/-- Why the second parser does not accept a command. -/
inductive Halt where
  | abort (w : Work)
  | fault (fault : Fault)

/-- The state of `y2parse` with `cmd->titor`. -/
structure Y2 extends Work where
  titor : Option Titor
  look : Look BcItor

namespace Y2

/-- The state in front of a command, with an empty `cmd`. -/
def init (db : Db) (session : Session) : Y2 :=
  { db, session, sent := [], evaluated := [], titor := none, look := ⟨⟨0, none, []⟩, none⟩ }

def send (s : Y2) (pieces : List Piece) : Y2 := { s with toWork := s.toWork.send pieces }

/-- A token is out of place. -/
def syntaxError {α : Type} (s : Y2) : Except Halt α := .error (.abort s.toWork)

/-- A call from an action. -/
def perform {α : Type} (x : Except Fault α) : Except Halt α := x.mapError .fault

/-- A part of the parser that reads expressions; it sends the mismatch that it stops at. -/
def within {α : Type} (w : Work) (x : Except Stop α) : Except Halt α :=
  match x with
  | .ok a => .ok a
  | .error .syntaxError => .error (.abort w)
  | .error .mismatch => .error (.abort (w.send [.status .datumTypeMismatch]))
  | .error (.fault fault) => .error (.fault fault)

/-- `session_send_status` on what a command returned. -/
def reply (s : Y2) (x : Except Fault (Db × Session × ScrcStatus)) : Except Halt Y2 := do
  let (db, session, status) ← perform x
  return { s with db, session }.send [.status status]

/-- The reply of a command that has no use for the session. -/
def replyDb (s : Y2) (x : Except Fault (Db × ScrcStatus)) : Except Halt Y2 := do
  let (db, status) ← perform x
  return { s with db }.send [.status status]

/-- The reply of a command on transactions. -/
def replyTran (s : Y2) (x : Except Fault (TranState × Session × ScrcStatus)) : Except Halt Y2 := do
  let (ts, session, status) ← perform x
  return { s with db := { s.db with trans := ts }, session }.send [.status status]

/-- `cmd->titor` and `bc.titor` start with the same row. -/
def setTitors (s : Y2) (row : Option Titor) : Y2 :=
  { s with titor := row, look := { s.look with lexer := { s.look.lexer with titor := row } } }

section

variable (cfg : Config) (fuel : Nat) (tokens : List BcNode)

/-! ### Tokens -/

def peek (s : Y2) : Except Halt (Y2 × Option BcNode) := do
  let (look, token) ← within s.toWork (s.look.peek (y2lexer cfg fuel s.db tokens))
  return ({ s with look }, token)

def shift (s : Y2) : Y2 := { s with look := s.look.shift }

def expect (token : BcNode) (s : Y2) : Except Halt Y2 := do
  let (s, ahead) ← s.peek cfg fuel tokens
  if ahead = some token then return s.shift else s.syntaxError

def string (s : Y2) : Except Halt (Y2 × List UInt8) := do
  let (s, ahead) ← s.peek cfg fuel tokens
  match ahead with
  | some (.string str) => return (s.shift, str)
  | _ => s.syntaxError

/-- The rest of `strings`. -/
def strings : Nat → Y2 → Except Halt (Y2 × List (List UInt8))
  | 0, _ => .error (.fault .diverges)
  | k + 1, s => do
      let (s, ahead) ← s.peek cfg fuel tokens
      match ahead with
      | some (.string str) => do
          let (s, strs) ← strings k s.shift
          return (s, str :: strs)
      | _ => return (s, [])

/-- `ARRAY_BEGIN strings ARRAY_END`. -/
def stringArray (s : Y2) : Except Halt (Y2 × List (List UInt8)) := do
  let s ← s.expect cfg fuel tokens .arrayBegin
  let (s, strs) ← s.strings cfg fuel tokens fuel
  if strs = [] then s.syntaxError
  else do
    let s ← s.expect cfg fuel tokens .arrayEnd
    return (s, strs)

/-- `SIZE_T TYPE STRING`, the first token of which is ahead. -/
def decl (size : UInt64) (s : Y2) : Except Halt (Y2 × Decl) := do
  let (s, ahead) ← s.shift.peek cfg fuel tokens
  match ahead with
  | some (.type type) => do
      let (s, name) ← s.shift.string cfg fuel tokens
      return (s, ⟨name, type, size⟩)
  | _ => s.syntaxError

/-- The rest of `decls`. -/
def decls : Nat → Y2 → Except Halt (Y2 × List Decl)
  | 0, _ => .error (.fault .diverges)
  | k + 1, s => do
      let (s, ahead) ← s.peek cfg fuel tokens
      match ahead with
      | some (.size size) => do
          let (s, first) ← s.decl cfg fuel tokens size
          let (s, rest) ← decls k s
          return (s, first :: rest)
      | _ => return (s, [])

/-- `ARRAY_BEGIN values ARRAY_END`. -/
def valueArray (s : Y2) : Except Halt (Y2 × List Datum) := do
  let s ← s.expect cfg fuel tokens .arrayBegin
  let (look, values) ← within s.toWork (parseValues (y2lexer cfg fuel s.db tokens)
    (evalActions cfg.build (titorColumns cfg s.db s.titor)) fuel s.look)
  let s := { s with look }
  if values = [] then s.syntaxError
  else do
    let s ← s.expect cfg fuel tokens .arrayEnd
    return (s, values)

/-! ### Rows -/

/-- The pieces of a row that `SELECT` sends. -/
def rowPiece (db : Db) (m : Mitor) : Except Fault Piece := do
  let data := db.pages m.gp.data
  gridGetRow cfg.build data m.row
  return .row (hgridGetRowSize (db.pages m.gp.header)) (data.rows m.row)

/-- What `DELETE` does with a row. -/
def deleteRow (row : Titor) (w : Work) : Except Fault Work := do
  let db ← dmlDeleteRow cfg w.session w.db row.m
  return { w with db }

/-- What `SELECT` does with a row. -/
def sendRow (row : Titor) (w : Work) : Except Fault Work := do
  let piece ← rowPiece cfg w.db row.m
  return w.send [piece]

variable (act : Titor → Work → Except Fault Work)

/-- The loops of `delete_mb_where` and `select_mb_where` without a clause. -/
def allRows : Nat → Work → Titor → Except Fault (Work × Titor)
  | 0, _, _ => .error .diverges
  | k + 1, w, row =>
      if titorIsValid w.db row then do
        let w ← act row w
        let row ← titorNext cfg fuel w.db row
        allRows k w row
      else return (w, row)

/-- The action of `delete_where_line` and `select_where_line`. -/
def lineAction (s : Y2) (v : Int64) : Except Fault Y2 :=
  match s.titor with
  | none => return s
  | some row =>
      if titorIsValid s.db row then do
        let w ← if v ≠ 0 then act row s.toWork else pure s.toWork
        let row ← titorNext cfg fuel w.db row
        return { s with toWork := w, titor := some row }
      else return s

/-- `expr` with the action of its line. -/
def line (s : Y2) : Except Halt Y2 := do
  let (look, v) ← within s.toWork (parseOr (y2lexer cfg fuel s.db tokens)
    (evalActions cfg.build (titorColumns cfg s.db s.titor)) fuel s.look)
  perform (lineAction cfg fuel act { s with look, evaluated := s.evaluated ++ [s.titor] } v)

/-- The tokens that an expression starts with. -/
def startsExpr : Option BcNode → Bool
  | some .not | some .lparen | some (.datum _) => true
  | _ => false

/-- `delete_where` and `select_where`. -/
def lines : Nat → Y2 → Except Halt Y2
  | 0, _ => .error (.fault .diverges)
  | k + 1, s => do
      let s ← s.line cfg fuel tokens act
      let (s, ahead) ← s.peek cfg fuel tokens
      if startsExpr ahead then lines k s else return s

/-- `delete_mb_where` and `select_mb_where`; only the first one moves `cmd->titor`. -/
def mbWhere (moves : Bool) (s : Y2) : Except Halt Y2 := do
  let (s, ahead) ← s.peek cfg fuel tokens
  if ahead = some .wher then s.shift.lines cfg fuel tokens act fuel
  else
    match s.titor with
    | none => return s
    | some row =>
        if titorIsValid s.db row then do
          let (w, row) ← perform (allRows cfg fuel act fuel s.toWork row)
          return { s with toWork := w, titor := if moves then some row else s.titor }
        else return s

/-! ### Commands -/

/-- The rules that start with `CREATE`. -/
def create (s : Y2) : Except Halt Y2 := do
  let (s, ahead) ← s.peek cfg fuel tokens
  match ahead with
  | some .user => do
      let (s, name) ← s.shift.string cfg fuel tokens
      s.replyDb (createUser cfg s.db name)
  | some .catalog => do
      let (s, name) ← s.shift.string cfg fuel tokens
      s.replyDb (createCatalog cfg s.db name)
  | some .schema => do
      let (s, name) ← s.shift.string cfg fuel tokens
      s.replyDb (createSchema cfg s.db s.session name)
  | some .table => do
      let (s, schema) ← s.shift.string cfg fuel tokens
      let (s, name) ← s.string cfg fuel tokens
      let s ← s.expect cfg fuel tokens .arrayBegin
      let (s, columns) ← s.decls cfg fuel tokens fuel
      if columns = [] then s.syntaxError
      else do
        let s ← s.expect cfg fuel tokens .arrayEnd
        s.replyDb (createTable cfg s.db s.session schema name columns .mvcc)
  | _ => s.syntaxError

/-- The rule of `INSERT`; `leftover` is the transaction that its iterator has from the stack. -/
def insertRule (leftover : Option Tran) (s : Y2) : Except Halt Y2 := do
  let (s, schema) ← s.string cfg fuel tokens
  let (s, table) ← s.string cfg fuel tokens
  let (s, names) ← s.stringArray cfg fuel tokens
  let (s, values) ← s.valueArray cfg fuel tokens
  s.reply do
    let (db, session, status, _) ←
      insert cfg s.db s.session schema table names values .mvcc leftover
    return (db, session, status)

/-- The rule of `DELETE`. -/
def deleteRule (s : Y2) : Except Halt Y2 := do
  let (s, schema) ← s.string cfg fuel tokens
  let (s, table) ← s.string cfg fuel tokens
  let (db, session, status, row) ← perform (dmlDelete cfg fuel s.db s.session schema table)
  let s := { s with db, session }
  let s := if status = .ok then s.setTitors row else s.send [.status status]
  let s ← s.mbWhere cfg fuel tokens (deleteRow cfg) true
  return s.send [.status .ok]

/-- The columns of a header from index `i` on; a column with `*` is not sent. -/
def columnPieces (header : Grid) : Nat → Nat → Except Fault (List Piece)
  | 0, _ => .error .diverges
  | k + 1, i => do
      match ← hgridGetColumn cfg.build header i with
      | none => return []
      | some c => do
          let pieces ← columnPieces header k (i + 1)
          return if c.name.head? = some 42 then pieces else .column c :: pieces

/-- The header of a body up to the start of the table data. An empty table comes without a header page. -/
def openBody (db : Db) (row : Option Titor) : Except Fault (List Piece) :=
  match row with
  | none => .error .nullPointer
  | some row => do
      let header := db.pages row.m.gp.header
      let columns ← columnPieces cfg header (header.occupied + 1) 0
      return [.bodyHeader, .tabheader] ++ columns ++ [.finish, .tabdata]

/-- The rule of `SELECT`. -/
def selectRule (s : Y2) : Except Halt Y2 := do
  let (s, names) ← s.stringArray cfg fuel tokens
  let (s, schema) ← s.string cfg fuel tokens
  let (s, table) ← s.string cfg fuel tokens
  let (db, session, status, row) ← perform (dmlSelect cfg fuel s.db s.session schema table names)
  let s := { s with db, session }
  let s ←
    if status = .ok then do
      let pieces ← perform (openBody cfg s.db row)
      pure ((s.send pieces).setTitors row)
    else pure (s.send [.status status])
  let s ← s.mbWhere cfg fuel tokens (sendRow cfg) false
  return s.send [.finish]

def cmd (leftover : Option Tran) (s : Y2) : Except Halt Y2 := do
  let (s, ahead) ← s.peek cfg fuel tokens
  match ahead with
  | some .create => s.shift.create cfg fuel tokens
  | some .startTran => s.shift.replyTran (tclStart cfg s.db.trans s.session)
  | some .commit => s.shift.replyTran (tclCommit cfg s.db.trans s.session)
  | some .rollback => s.shift.replyTran (tclRollback cfg s.db.trans s.session)
  | some .insert => s.shift.insertRule cfg fuel tokens leftover
  | some .delete => s.shift.deleteRule cfg fuel tokens
  | some .select => s.shift.selectRule cfg fuel tokens
  | _ => s.syntaxError

/-- `y2parse`. -/
def parse (leftover : Option Tran) (s : Y2) : Except Halt Y2 := do
  let s ← s.cmd cfg fuel tokens leftover
  let (s, ahead) ← s.peek cfg fuel tokens
  if ahead = none then return s else s.syntaxError

end

end Y2

/-- What `execute_cmd` leaves behind, with what it sent and whether it returned 0. -/
structure Executed where
  db : Db
  session : Session
  sent : List Piece
  succeeded : Bool

/-- `execute_cmd`. Without a token array the parser stops at once, and `yyerror` looks at the first token. -/
def executeCmd (cfg : Config) (fuel : Nat) (leftover : Option Tran) (db : Db) (session : Session)
    (tokens : Option (List BcNode)) : Except Fault Executed :=
  match tokens with
  | none => .error .nullPointer
  | some tokens =>
      match bcPrepare tokens with
      | .error status => return ⟨db, session, [.status status], false⟩
      | .ok tokens =>
          match (Y2.init db session).parse cfg fuel tokens leftover with
          | .ok s => return ⟨s.db, s.session, s.sent, true⟩
          | .error (.abort w) => return ⟨w.db, w.session, w.sent ++ [.status .parserError], false⟩
          | .error (.fault fault) => .error fault

end Scroller.Execute

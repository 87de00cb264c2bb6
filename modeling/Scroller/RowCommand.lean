import Scroller.Bc
import Scroller.ExecuteCmd
import Scroller.Hquery

/-!
# Commands with a WHERE clause

What a `DELETE` or a `SELECT` with an expression is to do: evaluate the expression for every visible row of the
table in the order of a scan, and delete or send the rows that it is true for. The first row without a value
ends the command.
-/

namespace Scroller.Execute

/-- The visible rows from an iterator on, with enough fuel for every step. -/
inductive Scan (cfg : Config) (fuel : Nat) (db : Db) : Option Titor → List Titor → Prop where
  | undef : Scan cfg fuel db none []
  | done {row : Titor} (hvalid : titorIsValid db row = false) : Scan cfg fuel db (some row) []
  | row {row next : Titor} {rows : List Titor} (hvalid : titorIsValid db row = true)
      (hcontent : (db.pages row.m.gp.data).content = .mvcc)
      (hvisible : rowIsVisible cfg db row.tran row.m = .ok true)
      (hnext : titorNext cfg fuel db row = .ok next) (hrows : Scan cfg fuel db (some next) rows) :
      Scan cfg fuel db (some row) (row :: rows)

/-- A `DELETE` or a `SELECT` up to its clause. -/
inductive RowCmd where
  | delete (schema table : List UInt8)
  | select (schema table name : List UInt8) (names : List (List UInt8))

namespace RowCmd

/-- The tokens in front of the clause. -/
def tokens : RowCmd → List BcNode
  | .delete schema table => [.delete, .string schema, .string table]
  | .select schema table name names =>
      [.select, .arrayBegin] ++ (name :: names).map .string ++
        [.arrayEnd, .string schema, .string table]

/-- The bytecode of the command with a clause. -/
def bytecode (cmd : RowCmd) (e : Hquery.Tree .or) : List BcNode :=
  cmd.tokens ++ [.wher, .loopBegin 0] ++ e.emitted ++ [.loopEnd 0]

/-- The names of the table. -/
def schema : RowCmd → List UInt8
  | .delete schema _ | .select schema _ _ _ => schema

def table : RowCmd → List UInt8
  | .delete _ table | .select _ table _ _ => table

def IsSelect : RowCmd → Prop
  | .delete _ _ => False
  | .select _ _ _ _ => True

/-- The bytecode of the command, with a clause or without one. -/
def statement (cmd : RowCmd) : Option (Hquery.Tree .or) → List BcNode
  | none => cmd.tokens
  | some e => cmd.bytecode e

/-- The function of `dml.c` that finds the rows. -/
def opened (cfg : Config) (fuel : Nat) (db : Db) (session : Session) :
    RowCmd → Except Fault (Db × Session × ScrcStatus × Option Titor)
  | .delete schema table => dmlDelete cfg fuel db session schema table
  | .select schema table name names => dmlSelect cfg fuel db session schema table (name :: names)

/-- The header page of the table. -/
def header (cmd : RowCmd) (db : Db) (session : Session) : Grid :=
  let named := match cmd with
    | .delete schema table | .select schema table _ _ => db.relationRow session schema table
  match named with
  | none => db.pages .undef
  | some (row, _) => db.pages row.header

/-- What is sent before the rows. -/
def opening (header : Grid) : RowCmd → List Piece
  | .delete _ _ => []
  | .select _ _ _ _ =>
      [.bodyHeader, .tabheader] ++
        (((List.range header.occupied).map header.columns).filter fun c => c.name.head? ≠ some 42).map
          .column ++ [.finish, .tabdata]

/-- A debug build looks for the column behind the last one on the header page. -/
def Fits (cfg : Config) (header : Grid) : RowCmd → Prop
  | .delete _ _ => True
  | .select _ _ _ _ => cfg.build = .debug → header.occupied < header.rown

/-- What is done with a row that the expression is true for. -/
def act (cfg : Config) : RowCmd → Titor → Work → Except Fault Work
  | .delete _ _ => Y2.deleteRow cfg
  | .select _ _ _ _ => Y2.sendRow cfg

/-- What is sent behind the rows. -/
def closing : RowCmd → List Piece
  | .delete _ _ => [.status .ok]
  | .select _ _ _ _ => [.finish]

/-- What is to be done for a row; `eval` is the expression for a row. -/
def forRow (eval : Titor → Except Stop Int64) (act : Titor → Work → Except Fault Work) (w : Work)
    (row : Titor) : Except Halt Work := do
  let v ← Y2.within w (eval row)
  let w := { w with evaluated := w.evaluated ++ [some row] }
  if v ≠ 0 then Y2.perform (act row w) else return w

/-- How a command ends: accepted with what it did and the tokens that `y2lex` delivered for it, rejected, or not at
all. -/
inductive Outcome where
  | accepted (w : Work) (delivered : List BcNode)
  | rejected (db : Db) (session : Session) (sent : List Piece)
  | fault (fault : Fault)

/-- The database that a command leaves, if it ends. -/
def Outcome.Leaves : Outcome → Db → Prop
  | .accepted w _, db => w.db = db
  | .rejected db' _ _, db => db' = db
  | .fault _, _ => False

/-- What the second parser makes of the bytecode of a command. -/
def outcome : Except Halt Y2 → Outcome
  | .ok s => .accepted s.toWork s.look.lexer.delivered
  | .error (.abort w) => .rejected w.db w.session w.sent
  | .error (.fault fault) => .fault fault

/-- How tokens that are executed end. -/
def parsed (cfg : Config) (fuel : Nat) (leftover : Option Tran) (tokens : List BcNode) (db : Db) (session : Session) :
    Outcome :=
  match bcPrepare tokens with
  | .error status => .rejected db session [.status status]
  | .ok tokens => outcome ((Y2.init db session).parse cfg fuel tokens leftover)

/-- What a command is to do with the visible rows, once its table was found. -/
def reference (cmd : RowCmd) (cfg : Config) (e : Hquery.Tree .or) (header : Grid) (db : Db)
    (session : Session) (rows : List Titor) : Outcome :=
  let eval row := e.translate.eval cfg.build (titorColumns cfg db (some row))
  match rows.foldlM (forRow eval (cmd.act cfg)) ⟨db, session, cmd.opening header, []⟩ with
  | .ok w => .accepted (w.send cmd.closing)
      (cmd.tokens ++ .wher :: (List.replicate rows.length e.emitted).flatten)
  | .error (.abort w) => .rejected w.db w.session w.sent
  | .error (.fault fault) => .fault fault

/-- How the command with a clause ends: the first parser puts its tokens into the array of the session, and what the
array holds then is executed. -/
def run (cmd : RowCmd) (cfg : Config) (fuel : Nat) (leftover : Option Tran) (bc : Bc BcNode) (e : Hquery.Tree .or)
    (db : Db) (session : Session) : Outcome :=
  match bc.puts cfg.build (cmd.bytecode e) with
  | .error fault => .fault fault
  | .ok bc => parsed cfg fuel leftover bc.toList db session

/-- Nothing that is to be done for a row ends the process. -/
def Returns (cmd : RowCmd) (cfg : Config) (e : Hquery.Tree .or) (header : Grid) (db : Db)
    (session : Session) (rows : List Titor) : Prop :=
  ∀ fault, cmd.reference cfg e header db session rows ≠ .fault fault

/-- The command with a clause ends, and as it is to end. -/
def Runs (cmd : RowCmd) (cfg : Config) (leftover : Option Tran) (bc : Bc BcNode) (e : Hquery.Tree .or) (db : Db)
    (session : Session) (db₁ : Db) (session₁ : Session) (rows : List Titor) : Prop :=
  cmd.Returns cfg e (cmd.header db session) db₁ session₁ rows ∧
    ∃ fuel₁, ∀ fuel, fuel₁ ≤ fuel →
      cmd.run cfg fuel leftover bc e db session
        = cmd.reference cfg e (cmd.header db session) db₁ session₁ rows

end RowCmd

end Scroller.Execute

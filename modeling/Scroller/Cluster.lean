import Mathlib.Logic.Function.Basic
import Scroller.ExecuteCmd
import Scroller.Lib.Machine

/-!
# Sessions and their commands

Every session is a process of its own; they share the database and take turns with whole commands. A row is
named by the index of its table in `relation` and by its number in a scan of the table.
-/

namespace Scroller

/-- The commands of `execute.y` on transactions and rows. An `INSERT` comes with the transaction that its
iterator has left over on the stack. -/
inductive Command where
  | start
  | commit
  | rollback
  | insert (schema table : List UInt8) (names : List (List UInt8)) (values : List Datum)
      (leftover : Option Tran)
  | delete (schema table : List UInt8) (cond : Option Where)
  | select (schema table : List UInt8) (names : List (List UInt8)) (cond : Option Where)

/-- The status of a command, the row it inserted and the rows it deleted or sent. -/
structure Reply where
  status : ScrcStatus
  inserted : Option (Nat × Nat)
  rows : List (Nat × Nat)
deriving DecidableEq

def Reply.ofStatus (status : ScrcStatus) : Reply := ⟨status, none, []⟩

/-- What all sessions share, with the sessions. -/
structure Cluster (D : Type) where
  db : D
  sessions : Nat → Session

/-- One command of one session. -/
def Cluster.step {D : Type} (run : D → Session → Command → Except Fault (D × Session × Reply))
    (s : Cluster D) (input : Nat × Command) : Except Fault (Cluster D × Reply) := do
  let (db, session, reply) ← run s.db (s.sessions input.1) input.2
  return ({ db, sessions := Function.update s.sessions input.1 session }, reply)

theorem Cluster.step_eq_ok {D : Type}
    {run : D → Session → Command → Except Fault (D × Session × Reply)} {s s' : Cluster D}
    {sid : Nat} {cmd : Command} {reply : Reply} :
    s.step run (sid, cmd) = .ok (s', reply) ↔
      ∃ session, run s.db (s.sessions sid) cmd = .ok (s'.db, session, reply)
        ∧ s'.sessions = Function.update s.sessions sid session := by
  unfold Cluster.step
  rw [bind_eq_ok]
  constructor
  · rintro ⟨⟨db, session, reply'⟩, hrun, h⟩
    cases h
    exact ⟨session, hrun, rfl⟩
  · rintro ⟨session, hrun, hsessions⟩
    cases s'
    cases hsessions
    exact ⟨_, hrun, rfl⟩

/-- The number of a row in a scan of the mesh that starts at a page. -/
def Db.rowNumber (db : Db) (data : Gid) (m : Mitor) : Nat :=
  if m.gp.data = data then m.row else (db.pages data).occupied + m.row

/-- The name of a row that a command found under an iterator. -/
def Db.rowName (db : Db) (session : Session) (schema table : List UInt8) (m : Mitor) : Nat × Nat :=
  match db.relationRow session schema table with
  | none => (0, 0)
  | some (row, i) => (i, db.rowNumber row.data m)

/-- The reaction of `execute.y` to a command. -/
def Db.run (cfg : Config) (fuel : Nat) (db : Db) (session : Session) :
    Command → Except Fault (Db × Session × Reply)
  | .start => do
      let (ts, session, status) ← tclStart cfg db.trans session
      return ({ db with trans := ts }, session, .ofStatus status)
  | .commit => do
      let (ts, session, status) ← tclCommit cfg db.trans session
      return ({ db with trans := ts }, session, .ofStatus status)
  | .rollback => do
      let (ts, session, status) ← tclRollback cfg db.trans session
      return ({ db with trans := ts }, session, .ofStatus status)
  | .insert schema table names values leftover => do
      let (db, session, status, row) ← insert cfg db session schema table names values .mvcc leftover
      return (db, session, ⟨status, row.map (db.rowName session schema table), []⟩)
  | .delete schema table cond => do
      let (db, session, status, titor) ← dmlDelete cfg fuel db session schema table
      if status ≠ .ok then return (db, session, .ofStatus status)
      else do
        let (db, status, rows) ← rowsWhere cfg fuel (dmlDeleteRow cfg session) cond db titor
        return (db, session, ⟨status, none, rows.map (db.rowName session schema table)⟩)
  | .select schema table names cond => do
      let (db, session, status, titor) ← dmlSelect cfg fuel db session schema table names
      if status ≠ .ok then return (db, session, .ofStatus status)
      else do
        let (db, status, rows) ← rowsWhere cfg fuel (fun db _ => .ok db) cond db titor
        return (db, session, ⟨status, none, rows.map (db.rowName session schema table)⟩)

/-! ### Bytecode

Every session executes bytecode that the first parser has made of its statements. -/

open Execute

/-- The bytecode of one command of a session, with the transaction that an `INSERT` of it has from the stack. -/
structure Request where
  sid : Nat
  tokens : Option (List BcNode)
  leftover : Option Tran
  fuel : Nat

/-- `execute_cmd` in one session. -/
def Cluster.execute (cfg : Config) (s : Cluster Db) (request : Request) :
    Except Fault (Cluster Db × Executed) := do
  let done ← executeCmd cfg request.fuel request.leftover s.db (s.sessions request.sid) request.tokens
  return ({ db := done.db, sessions := Function.update s.sessions request.sid done.session }, done)

/-- The first parser names types of columns only. -/
def Request.Typed (request : Request) : Prop :=
  ∀ tokens, request.tokens = some tokens → ∀ type, BcNode.type type ∈ tokens → type.group ≠ .unknown

end Scroller

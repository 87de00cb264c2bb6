import Scroller.Dml

/-!
# Transaction commands

`tcl.c`. The cache `g_tran` belongs to the process of a session and holds its transaction, so that erasing
the entry and resetting the pointer are one step.
-/

namespace Scroller

/-- `tcl_start`. -/
def tclStart (cfg : Config) (ts : TranState) (session : Session) :
    Except Fault (TranState × Session × ScrcStatus) :=
  match session.tran with
  | some tran =>
      if tran.autocommit then tranPut cfg ts { session with tran := none } false
      else return (ts, session, .transactionStartError)
  | none => tranPut cfg ts session false

/-- The common body of `tcl_commit` and `tcl_rollback`. -/
def tclFinish (cfg : Config) (flag : TranFlag) (ts : TranState) (session : Session) :
    Except Fault (TranState × Session × ScrcStatus) :=
  match session.tran with
  | some tran =>
      if tran.autocommit then return (ts, session, .noTransaction)
      else do
        let flags ← tranFlagPut cfg ts.flags tran.key flag
        return ({ ts with flags }, { session with tran := none }, .ok)
  | none => return (ts, session, .noTransaction)

/-- `tcl_commit`. -/
def tclCommit (cfg : Config) : TranState → Session → Except Fault (TranState × Session × ScrcStatus) :=
  tclFinish cfg .commited

/-- `tcl_rollback`. -/
def tclRollback (cfg : Config) :
    TranState → Session → Except Fault (TranState × Session × ScrcStatus) :=
  tclFinish cfg .aborted

end Scroller

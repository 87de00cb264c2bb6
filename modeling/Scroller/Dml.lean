import Scroller.Table

/-!
# Commands on rows

`dml.c` with the rules of `execute.y` that walk over the rows of a `DELETE` or a `SELECT`. Both find the
table by its names in `relation` and use the transaction of the session, or put a new one.
-/

namespace Scroller

/-- The test of `find_relation` for a row of `relation`. -/
def RelationRow.isNamed (row : RelationRow) (session : Session) (schema relation : List UInt8) : Bool :=
  eqCharacter row.catalog (session.catalog.getD []) && eqCharacter row.schema schema
    && eqCharacter row.relation relation

def RelationRow.header (row : RelationRow) : Gid := ⟨row.headerGid.toUInt64⟩

def RelationRow.data (row : RelationRow) : Gid := ⟨row.dataGid.toUInt64⟩

/-- The row of `relation` that `find_relation` stops at, with its index. -/
def Db.relationRow (db : Db) (session : Session) (schema relation : List UInt8) :
    Option (RelationRow × Nat) :=
  db.relation.rows.zipIdx.find? fun (row, _) => row.isNamed session schema relation

def Db.setRelationRow (db : Db) (i : Nat) (row : RelationRow) : Db :=
  { db with relation := { db.relation with rows := db.relation.rows.set i row } }

/-- The lines of `find_relation` that create the data of a table; `none` leaves its loop. -/
def createData (cfg : Config) (db : Db) (i : Nat) (row : RelationRow) :
    Except Fault (Option (Db × RelationRow)) := do
  match ← sequenceNextval cfg.build db.sequence with
  | none => return none
  | some (sequence, currval) =>
      let dtable ← dgridInit cfg.build cfg.pagesz .mvcc (db.pages row.header)
      let row := { row with dataGid := currval, tailGid := currval }
      let db := { db with sequence }
      return some ((db.setPage (.ofParts currval.toUInt64 0) dtable).setRelationRow i row, row)

/-- `find_relation`. -/
def findRelation (cfg : Config) (db : Db) (session : Session) (schema relation : List UInt8)
    (returnTail createIfDataUndef : Bool) : Except Fault (Db × GidPair) :=
  match db.relationRow session schema relation with
  | none => return (db, ⟨.undef, .undef⟩)
  | some (row, i) => do
      cfg.build.assert (row.headerGid ≠ 0)
      let created ←
        if createIfDataUndef ∧ row.dataGid = 0 then createData cfg db i row else pure (some (db, row))
      match created with
      | none => return (db, ⟨.undef, .undef⟩)
      | some (db, row) =>
          return (db, ⟨row.header, if returnTail then ⟨row.tailGid.toUInt64⟩ else row.data⟩)

/-- The row of `catalog` that `tran_put` stops at, with its index. -/
def TranState.catalogRow (ts : TranState) (session : Session) : Option (CatalogRow × Nat) :=
  ts.catalog.rows.zipIdx.find? fun (row, _) => eqCharacter row.name (session.catalog.getD [])

def TranState.setCatalogRow (ts : TranState) (i : Nat) (row : CatalogRow) : TranState :=
  { ts with catalog := { ts.catalog with rows := ts.catalog.rows.set i row } }

/-- `tran_put`. -/
def tranPut (cfg : Config) (ts : TranState) (session : Session) (autocommit : Bool) :
    Except Fault (TranState × Session × ScrcStatus) :=
  match ts.catalogRow session with
  | none => do
      cfg.build.assert False
      .error .outOfBounds
  | some (row, i) =>
      match row.tranSequence with
      | none => do
          cfg.build.assert False
          .error .outOfBounds
      | some sequence => do
          match ← sequenceNextval cfg.build sequence with
          | none => return (ts, session, .sequenceOverflow)
          | some (sequence, tranid) => do
              let ts := ts.setCatalogRow i { row with tranSequence := some sequence }
              let flags ←
                if autocommit then tranFlagPut cfg ts.flags tranid .commited else pure ts.flags
              return ({ ts with flags }, { session with tran := some ⟨tranid, autocommit⟩ }, .ok)

/-- The lines "Create transaction id if not present". -/
def putTranIfNone (cfg : Config) (ts : TranState) (session : Session) :
    Except Fault (TranState × Session × ScrcStatus) :=
  if session.tran = none then tranPut cfg ts session true else return (ts, session, .ok)

/-- `htable_get_column_idx` for every name; `none` for an unknown column. -/
def columnIndices (header : Grid) (names : List (List UInt8)) : Option (List Nat) :=
  names.mapM (hgridGetColumnIdx header)

/-! ### INSERT -/

/-- The last loop of `insert`; `false` is a type mismatch. -/
def putValues (cfg : Config) : Db → Mitor → List Nat → List Datum → Except Fault (Db × Bool)
  | db, _, [], _ => return (db, true)
  | _, _, _ :: _, [] => .error .outOfBounds
  | db, m, index :: indices, value :: values => do
      match ← mitorPutDatum cfg db m index value with
      | none => return (db, false)
      | some db => putValues cfg db m indices values

/-- The lines of `insert` from `table_alloc_row` on. The transaction of `row` is what is left over on the
stack. -/
def insertRow (cfg : Config) (db : Db) (gp : GidPair) (leftover : Option Tran) (indices : List Nat)
    (values : List Datum) : Except Fault (Db × ScrcStatus × Option Mitor) := do
  let (db, _, row) ← meshAllocRow cfg db gp
  match row with
  | none => return (db, .sequenceOverflow, none)
  | some m => do
      if ¬ mitorIsValid db m then return (db, .sequenceOverflow, none)
      else if ¬ titorIsValid db ⟨m, leftover⟩ then return (db, .sequenceOverflow, some m)
      else do
        let (db, filled) ← putValues cfg db m indices values
        return (db, if filled then .ok else .datumTypeMismatch, some m)

/-- `insert`, with the row that it allocated. -/
def insert (cfg : Config) (db : Db) (session : Session) (schema table : List UInt8)
    (names : List (List UInt8)) (values : List Datum) (content : GridContent)
    (leftover : Option Tran) : Except Fault (Db × Session × ScrcStatus × Option Mitor) := do
  let (db, gp) ← findRelation cfg db session schema table true true
  cfg.build.assert (names.length = values.length)
  if gp.header = .undef then return (db, session, .unknownRelation, none)
  else do
    cfg.build.assert (gp.data ≠ .undef)
    match content with
    | .pure =>
        match columnIndices (db.pages gp.header) names with
        | none => return (db, session, .unknownColumn, none)
        | some indices => do
            let (db, status, row) ← insertRow cfg db gp leftover indices values
            return (db, session, status, row)
    | .mvcc => do
        let (ts, session, status) ← putTranIfNone cfg db.trans session
        let db := { db with trans := ts }
        match status, session.tran with
        | .ok, some tran =>
            match columnIndices (db.pages gp.header) (names ++ [tminName, tmaxName]) with
            | none => return (db, session, .unknownColumn, none)
            | some indices => do
                let (db, status, row) ← insertRow cfg db gp leftover indices
                  (values ++ [makeTranid tran.key, makeTranid tranInvalidId])
                return (db, session, status, row)
        | .ok, none => .error .nullPointer
        | status, _ => return (db, session, status, none)

/-! ### DELETE and SELECT -/

/-- The common end of `dml_delete` and `dml_select`; `none` is an invalid iterator. -/
def openRelation (cfg : Config) (fuel : Nat) (db : Db) (session : Session) (gp : GidPair) :
    Except Fault (Db × Session × ScrcStatus × Option Titor) :=
  if gp.data = .undef then return (db, session, .ok, none)
  else do
    let (ts, session, status) ←
      if (db.pages gp.data).content = .mvcc then putTranIfNone cfg db.trans session
      else pure (db.trans, session, .ok)
    let db := { db with trans := ts }
    if status ≠ .ok then return (db, session, status, none)
    else do
      let titor ← titorInit cfg fuel db session.tran gp
      return (db, session, .ok, some titor)

/-- `dml_delete`. -/
def dmlDelete (cfg : Config) (fuel : Nat) (db : Db) (session : Session) (schema table : List UInt8) :
    Except Fault (Db × Session × ScrcStatus × Option Titor) := do
  let (db, gp) ← findRelation cfg db session schema table false false
  if gp.header = .undef then return (db, session, .unknownRelation, none)
  else openRelation cfg fuel db session gp

/-- `dml_select`. -/
def dmlSelect (cfg : Config) (fuel : Nat) (db : Db) (session : Session) (schema table : List UInt8)
    (names : List (List UInt8)) : Except Fault (Db × Session × ScrcStatus × Option Titor) := do
  let (db, gp) ← findRelation cfg db session schema table false false
  if gp.header = .undef then return (db, session, .unknownRelation, none)
  else
    match columnIndices (db.pages gp.header) names with
    | none => return (db, session, .unknownColumn, none)
    | some _ => openRelation cfg fuel db session gp

/-- `mitor_delete`. `grid_delete_row` also gets the row behind the deleted one, which has to be a slot of the grid. -/
def mitorDelete (cfg : Config) (db : Db) (row : Mitor) : Except Fault Db :=
  if row.row < (db.pages row.gp.data).occupied then do
    cfg.build.assert (row.row + 1 < (db.pages row.gp.data).rown)
    return db.setPage row.gp.data (gridDeleteRow (db.pages row.gp.data) row.row)
  else do
    cfg.build.assert False
    return db

/-- `dml_delete_row`. -/
def dmlDeleteRow (cfg : Config) (session : Session) (db : Db) (row : Mitor) : Except Fault Db :=
  match (db.pages row.gp.data).content with
  | .pure => mitorDelete cfg db row
  | .mvcc => do
      cfg.build.assert (hgridGetColumnIdx (db.pages row.gp.header) tmaxName = some tmaxIdx)
      match session.tran with
      | none => .error .nullPointer
      | some tran => do
          cfg.build.assert (tran.key ≠ 0)
          let put ← mitorPutDatum cfg db row tmaxIdx (makeTranid tran.key)
          cfg.build.assert (put.isSome)
          return put.getD db

/-- A `WHERE` clause for the cells of a row; `none` aborts the command. -/
abbrev Where := Row → Option Bool

/-- The loops of `delete_mb_where` and `select_mb_where`: the rows that the clause holds of, and `false` if
it aborted the command. -/
def rowLoop (cfg : Config) (act : Db → Mitor → Except Fault Db) (cond : Where) :
    Nat → Db → Titor → Except Fault (Db × List Mitor × Bool)
  | 0, _, _ => .error .diverges
  | fuel + 1, db, t =>
      if ¬ titorIsValid db t then return (db, [], true)
      else
        match cond ((db.pages t.m.gp.data).rows t.m.row) with
        | none => return (db, [], false)
        | some false => do
            let next ← titorNext cfg fuel db t
            rowLoop cfg act cond fuel db next
        | some true => do
            let db ← act db t.m
            let next ← titorNext cfg fuel db t
            let (db, rows, finished) ← rowLoop cfg act cond fuel db next
            return (db, t.m :: rows, finished)

/-- The rows of a command that got its iterator. A `WHERE` over no row at all is a syntax error. -/
def rowsWhere (cfg : Config) (fuel : Nat) (act : Db → Mitor → Except Fault Db) (cond : Option Where)
    (db : Db) (titor : Option Titor) : Except Fault (Db × ScrcStatus × List Mitor) := do
  let empty := match titor with
    | none => true
    | some t => ! titorIsValid db t
  match titor, empty with
  | some t, false => do
      let (db, rows, finished) ← rowLoop cfg act (cond.getD fun _ => some true) fuel db t
      return (db, if finished then .ok else .datumTypeMismatch, rows)
  | _, _ => return (db, if cond.isSome then .parserError else .ok, [])

end Scroller

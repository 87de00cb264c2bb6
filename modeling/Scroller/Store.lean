import Scroller.Cluster

/-!
# The store

What the commands do, without pages: a table is the list of its rows in the order of a scan. The list loses
its last row where an `INSERT` starts the second page of the mesh over.
-/

namespace Scroller

/-- A table that a row of `relation` stands for; `data` is unset until the first `INSERT`. -/
structure Relation where
  catalog : List UInt8
  schema : List UInt8
  relation : List UInt8
  header : Grid
  data : Option (Mesh Row)

structure Store where
  relations : List Relation
  trans : TranState

def Relation.isNamed (t : Relation) (session : Session) (schema relation : List UInt8) : Bool :=
  eqCharacter t.catalog (session.catalog.getD []) && eqCharacter t.schema schema
    && eqCharacter t.relation relation

namespace Store

def find (store : Store) (session : Session) (schema relation : List UInt8) :
    Option (Relation × Nat) :=
  store.relations.zipIdx.find? fun (t, _) => t.isNamed session schema relation

def setData (store : Store) (i : Nat) (t : Relation) (mesh : Mesh Row) : Store :=
  { store with relations := store.relations.set i { t with data := some mesh } }

/-- The row with a number in the table with an index. -/
def row? (store : Store) (name : Nat × Nat) : Option Row := do
  let t ← store.relations[name.1]?
  let mesh ← t.data
  mesh.rows[name.2]?

end Store

def Row.tmin (row : Row) : Int64 := (row tminIdx).integer

def Row.tmax (row : Row) : Int64 := (row tmaxIdx).integer

def Row.setTmax (row : Row) (tid : Int64) : Row :=
  Function.update row tmaxIdx { row tmaxIdx with integer := tid }

/-! ### Inserting -/

/-- The data of a table for an `INSERT`. -/
def Relation.dataOrNew (cfg : Config) (t : Relation) : Except Fault (Mesh Row) :=
  match t.data with
  | some mesh => return mesh
  | none => do
      let grid ← dgridInit cfg.build cfg.pagesz .mvcc t.header
      return ⟨grid.rown, false, []⟩

/-- The cells of a row, put one after the other; `false` is a type mismatch. -/
def putCells (build : Build) (header : Grid) : Row → List Nat → List Datum → Except Fault (Row × Bool)
  | row, [], _ => return (row, true)
  | _, _ :: _, [] => .error .outOfBounds
  | row, index :: indices, value :: values => do
      match ← putCell build (header.columns index) (row index) value with
      | none => return (row, false)
      | some cell => putCells build header (Function.update row index cell) indices values

/-- A new row of the mesh with its number. -/
def Mesh.insert (cfg : Config) (mesh : Mesh Row) (header : Grid) (leftover : Option Tran)
    (indices : List Nat) (values : List Datum) :
    Except Fault (Mesh Row × ScrcStatus × Option Nat) := do
  let (mesh, valid) ← mesh.allocRow cfg.build Row.zero
  if ¬ valid then return (mesh, .sequenceOverflow, none)
  else if leftover = none then return (mesh, .sequenceOverflow, some (mesh.rows.length - 1))
  else do
    let (row, filled) ← putCells cfg.build header Row.zero indices values
    return ({ mesh with rows := mesh.rows.set (mesh.rows.length - 1) row },
      if filled then .ok else .datumTypeMismatch, some (mesh.rows.length - 1))

def Store.insert (cfg : Config) (store : Store) (session : Session) (schema table : List UInt8)
    (names : List (List UInt8)) (values : List Datum) (leftover : Option Tran) :
    Except Fault (Store × Session × Reply) :=
  match store.find session schema table with
  | none => do
      cfg.build.assert (names.length = values.length)
      return (store, session, .ofStatus .unknownRelation)
  | some (t, i) => do
      let mesh ← t.dataOrNew cfg
      cfg.build.assert (names.length = values.length)
      let (ts, session, status) ← putTranIfNone cfg store.trans session
      let store := { store.setData i t mesh with trans := ts }
      match status, session.tran with
      | .ok, some tran =>
          match columnIndices t.header (names ++ [tminName, tmaxName]) with
          | none => return (store, session, .ofStatus .unknownColumn)
          | some indices => do
              let (mesh, status, n) ← mesh.insert cfg t.header leftover indices
                (values ++ [makeTranid tran.key, makeTranid tranInvalidId])
              return (store.setData i t mesh, session, ⟨status, n.map fun n => (i, n), []⟩)
      | .ok, none => .error .nullPointer
      | status, _ => return (store, session, .ofStatus status)

/-! ### Deleting and selecting -/

/-- What became of the rows of a table, the numbers of those that a clause held of, whether any row was
visible, and whether the clause went through. -/
structure Scan where
  rows : List Row
  hits : List Nat
  visited : Bool
  finished : Bool

def Scan.status (scan : Scan) (cond : Option Where) : ScrcStatus :=
  if ¬ scan.finished then .datumTypeMismatch
  else if cond.isSome ∧ ¬ scan.visited then .parserError
  else .ok

/-- The visible rows of a table one after the other, from the row with number `n` on. -/
def scanRows (cfg : Config) (flags : Int64 → TranFlag) (tran : Tran) (act : Row → Row) (cond : Where) :
    Nat → List Row → Except Fault Scan
  | _, [] => return ⟨[], [], false, true⟩
  | n, row :: rows => do
      if ← tranRowIsVisible cfg flags tran row.tmin row.tmax then
        match cond row with
        | none => return ⟨row :: rows, [], true, false⟩
        | some false => do
            let scan ← scanRows cfg flags tran act cond (n + 1) rows
            return { scan with rows := row :: scan.rows, visited := true }
        | some true => do
            let scan ← scanRows cfg flags tran act cond (n + 1) rows
            return ⟨act row :: scan.rows, n :: scan.hits, true, scan.finished⟩
      else do
        let scan ← scanRows cfg flags tran act cond (n + 1) rows
        return { scan with rows := row :: scan.rows }

/-- The rows of a command that found its table. -/
def Store.scan (cfg : Config) (store : Store) (session : Session) (t : Relation) (i : Nat)
    (act : Tran → Row → Row) (cond : Option Where) : Except Fault (Store × Session × Reply) :=
  match t.data with
  | none => return (store, session, .ofStatus (if cond.isSome then .parserError else .ok))
  | some mesh => do
      let (ts, session, status) ← putTranIfNone cfg store.trans session
      let store := { store with trans := ts }
      match status, session.tran with
      | .ok, some tran =>
          if mesh.rows = [] then .error .nullPointer
          else do
            let scan ← scanRows cfg ts.flags tran (act tran) (cond.getD fun _ => some true) 0 mesh.rows
            return (store.setData i t { mesh with rows := scan.rows }, session,
              ⟨scan.status cond, none, scan.hits.map fun n => (i, n)⟩)
      | .ok, none => .error .nullPointer
      | status, _ => return (store, session, .ofStatus status)

def Store.delete (cfg : Config) (store : Store) (session : Session) (schema table : List UInt8)
    (cond : Option Where) : Except Fault (Store × Session × Reply) :=
  match store.find session schema table with
  | none => return (store, session, .ofStatus .unknownRelation)
  | some (t, i) => store.scan cfg session t i (fun tran row => row.setTmax tran.key) cond

def Store.select (cfg : Config) (store : Store) (session : Session) (schema table : List UInt8)
    (names : List (List UInt8)) (cond : Option Where) : Except Fault (Store × Session × Reply) :=
  match store.find session schema table with
  | none => return (store, session, .ofStatus .unknownRelation)
  | some (t, i) =>
      match columnIndices t.header names with
      | none => return (store, session, .ofStatus .unknownColumn)
      | some _ => store.scan cfg session t i (fun _ row => row) cond

/-- A command of a session on the store. -/
def Store.run (cfg : Config) (store : Store) (session : Session) :
    Command → Except Fault (Store × Session × Reply)
  | .start => do
      let (ts, session, status) ← tclStart cfg store.trans session
      return ({ store with trans := ts }, session, .ofStatus status)
  | .commit => do
      let (ts, session, status) ← tclCommit cfg store.trans session
      return ({ store with trans := ts }, session, .ofStatus status)
  | .rollback => do
      let (ts, session, status) ← tclRollback cfg store.trans session
      return ({ store with trans := ts }, session, .ofStatus status)
  | .insert schema table names values leftover =>
      store.insert cfg session schema table names values leftover
  | .delete schema table cond => store.delete cfg session schema table cond
  | .select schema table names cond => store.select cfg session schema table names cond

/-! ### The store of a database -/

/-- The rows of a grid. -/
def Grid.list (grid : Grid) : List Row := (List.range grid.occupied).map grid.rows

/-- The mesh whose data start at a page. -/
def Db.mesh (db : Db) (data : Gid) : Mesh Row :=
  let first := db.pages data
  { rown := first.rown
    extended := first.next ≠ .undef
    rows := first.list ++ if first.next = .undef then [] else (db.pages first.next).list }

def Db.relationOf (db : Db) (row : RelationRow) : Relation where
  catalog := row.catalog
  schema := row.schema
  relation := row.relation
  header := db.pages row.header
  data := if row.dataGid = 0 then none else some (db.mesh row.data)

def Db.store (db : Db) : Store where
  relations := db.relation.rows.map db.relationOf
  trans := db.trans

end Scroller

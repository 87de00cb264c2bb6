import Scroller.Dml

/-!
# Creating users, catalogs, schemas and tables

The commands of `ddl.c`. A catalog is a row with its own sequence of transaction ids, a table is a row of
`relation` with a header. All of them allocate with a copy of the id of their system table.
-/

namespace Scroller

/-- `create_user`; an invalid row is an overflow. -/
def createUser (cfg : Config) (db : Db) (user : List UInt8) : Except Fault (Db × ScrcStatus) := do
  let (user, valid) ← db.user.allocRow cfg.build (putChar user 32)
  return ({ db with user }, if valid then .ok else .sequenceOverflow)

/-- `create_schema`. -/
def createSchema (cfg : Config) (db : Db) (session : Session) (schema : List UInt8) :
    Except Fault (Db × ScrcStatus) := do
  let (schema, valid) ←
    db.schema.allocRow cfg.build ⟨putChar (session.catalog.getD []) 32, putChar schema 32⟩
  return ({ db with schema }, if valid then .ok else .sequenceOverflow)

/-- `create_catalog`; an invalid row is an overflow. The name column is `CHAR(32)`. -/
def createCatalog (cfg : Config) (db : Db) (catalog : List UInt8) : Except Fault (Db × ScrcStatus) := do
  let name := putChar catalog 32
  let (rows, valid) ← db.trans.catalog.allocRow cfg.build ⟨name, none⟩
  let db := { db with trans := { db.trans with catalog := rows } }
  if ¬ valid then return (db, .sequenceOverflow)
  else do
    match ← sequenceNextval cfg.build db.sequence with
    | none => return (db, .sequenceOverflow)
    | some (sequence, _) => do
        let db := { db with sequence }
        let tranSequence := sequenceInit 1 (.ofInt (2 ^ 63 - 1)) 1 1 false
        cfg.build.assert tranSequence.isSome
        if tranSequence.isNone then return (db, .unknownServerError)
        else
          return ({ db with
            trans := db.trans.setCatalogRow (db.trans.catalog.rows.length - 1) ⟨name, tranSequence⟩ },
            .ok)

/-- A column of `CREATE TABLE`. -/
structure Decl where
  name : List UInt8
  type : DatumType
  size : UInt64
deriving DecidableEq, Repr

/-- The columns of a new header, one after the other; `false` when a page has no room for them. -/
def addColumns : Grid → List Decl → Grid × Bool
  | grid, [] => (grid, true)
  | grid, decl :: decls =>
      match hgridAddColumn grid decl.name decl.type decl.size with
      | none => (grid, false)
      | some grid => addColumns grid decls

/-- The columns of a table with versions open its rows. -/
def versionDecls (dataContent : GridContent) : List Decl :=
  match dataContent with
  | .pure => []
  | .mvcc => [⟨tminName, tTranid, 0⟩, ⟨tmaxName, tTranid, 0⟩]

/-- `create_table`. The name columns of `relation` are `CHAR(32)`. -/
def createTable (cfg : Config) (db : Db) (session : Session) (schema tname : List UInt8)
    (decls : List Decl) (dataContent : GridContent) : Except Fault (Db × ScrcStatus) := do
  match ← sequenceNextval cfg.build db.sequence with
  | none => return (db, .sequenceOverflow)
  | some (sequence, currval) => do
      let db := { db with sequence }
      let newGid := Gid.ofParts currval.toUInt64 0
      let table ← gridInit cfg.build cfg.pagesz .pure sizeofColumn
      let (table, added) := addColumns table (versionDecls dataContent ++ decls)
      let db := db.setPage newGid table
      if ¬ added then return (db, .badAlloc)
      else do
        let (relation, valid) ← db.relation.allocRow cfg.build {
          catalog := putChar (session.catalog.getD []) 32
          schema := putChar schema 32
          relation := putChar tname 32
          headerGid := currval
          dataGid := 0
          tailGid := 0 }
        return ({ db with relation }, if valid then .ok else .sequenceOverflow)

end Scroller

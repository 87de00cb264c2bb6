import Scroller.Ddl
import Scroller.Lib.Machine

/-!
# The file of the global sequence

The commands that draw ids from `g_server.system.sequence`, with the page of the sequence in the file. A page
that is not flushed is written back when the cache likes, and lost when the server crashes.
-/

namespace Scroller

/-- A database, with the sequence that a server finds when it is started again. -/
structure Volume where
  db : Db
  file : Sequence

/-- A server that is started again finds its sequence in the file; what it finds of the rest is given. -/
inductive VolumeOp where
  | createCatalog (catalog : List UInt8)
  | createTable (session : Session) (schema tname : List UInt8) (decls : List Decl) (dataContent : GridContent)
  | insert (session : Session) (schema table : List UInt8) (names : List (List UInt8)) (values : List Datum)
      (content : GridContent) (leftover : Option Tran)
  | writeBack
  | crash (db : Db)

/-- The file that a command has named by its draw from the sequence. -/
def drawn (old new : Sequence) : List Gid := if new = old then [] else [.ofParts new.lastVal.toUInt64 0]

/-- The answer is the files that are named. -/
def Volume.step (cfg : Config) (v : Volume) : VolumeOp → Except Fault (Volume × List Gid)
  | .createCatalog catalog => do
      let (db, _) ← Scroller.createCatalog cfg v.db catalog
      return ({ v with db }, drawn v.db.sequence db.sequence)
  | .createTable session schema tname decls dataContent => do
      let (db, status) ← Scroller.createTable cfg v.db session schema tname decls dataContent
      return (⟨db, if status = .ok then db.sequence else v.file⟩, drawn v.db.sequence db.sequence)
  | .insert session schema table names values content leftover => do
      let (db, _, _, _) ← Scroller.insert cfg v.db session schema table names values content leftover
      -- `find_relation` flushes the sequence behind its draw
      return (⟨db, if db.sequence = v.db.sequence then v.file else db.sequence⟩, drawn v.db.sequence db.sequence)
  | .writeBack => return ({ v with file := v.db.sequence }, [])
  | .crash db => return (⟨{ db with sequence := v.file }, v.file⟩, [])

end Scroller

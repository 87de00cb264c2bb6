import Scroller.Grid
import Scroller.Sequence
import Scroller.Tran

/-!
# The database the sessions share

The pages are what the page cache returns for their ids, with the contents last written; a touch of a page is
taken to succeed. The system tables are meshes of their rows here, and a sequence page is its record.
-/

namespace Scroller

/-- A build and its page size. -/
structure Config where
  build : Build
  pagesz : Nat

/-- The number of flags in the transaction page. -/
def Config.tranCapacity (cfg : Config) : Nat := 8 * (cfg.pagesz - 8)

structure GidPair where
  header : Gid
  data : Gid
deriving DecidableEq, Repr

inductive ScrcStatus where
  | ok
  | unknownRelation
  | unknownColumn
  | sequenceOverflow
  | datumTypeMismatch
  | badAlloc
  | unknownServerError
  | transactionStartError
  | noTransaction
  | parserError
  | bytecodeStackOverflow
  | bytecodeUnbalancedStack
  | sendError
  | sessionClosed
deriving DecidableEq, Repr

/-- The rows of a mesh in the order of a scan. A caller that allocates with the id of the first page as the
tail finds the first page again; `extended` says that this page has a successor. -/
structure Mesh (R : Type) where
  rown : Nat
  extended : Bool
  rows : List R

/-- `mesh_alloc_row` from the first page, with the row that is written then. The second page is started
over whenever the first one is full; `false` is an invalid row. -/
def Mesh.allocRow {R : Type} (build : Build) (mesh : Mesh R) (row : R) :
    Except Fault (Mesh R × Bool) :=
  if mesh.rows.length < mesh.rown then return ({ mesh with rows := mesh.rows ++ [row] }, true)
  else do
    build.assert (mesh.extended = false)
    if mesh.rown = 0 then return ({ mesh with extended := true }, false)
    else return ({ mesh with extended := true, rows := mesh.rows.take mesh.rown ++ [row] }, true)

/-- A row of `relation`; its names are `CHAR(32)`. -/
structure RelationRow where
  catalog : List UInt8
  schema : List UInt8
  relation : List UInt8
  headerGid : Int64
  dataGid : Int64
  tailGid : Int64
deriving DecidableEq, Repr

/-- A row of `catalog` with the sequence that `tran_sequence` names, if it is set. -/
structure CatalogRow where
  name : List UInt8
  tranSequence : Option Sequence
deriving DecidableEq, Repr

/-- What transactions are made of: the catalogs with their sequences, and the flags of the transaction page,
which starts at id 0. -/
structure TranState where
  catalog : Mesh CatalogRow
  flags : Int64 → TranFlag

/-- A row of `schema`; its names are `CHAR(32)`. -/
structure SchemaRow where
  catalog : List UInt8
  schema : List UInt8
deriving DecidableEq, Repr

/-- What the sessions share. A row of `user` is its name, a `CHAR(32)`. -/
structure Db where
  pages : Gid → Grid
  sequence : Sequence
  meshSequence : Sequence
  user : Mesh (List UInt8)
  schema : Mesh SchemaRow
  relation : Mesh RelationRow
  trans : TranState

def Db.setPage (db : Db) (gid : Gid) (grid : Grid) : Db :=
  { db with pages := Function.update db.pages gid grid }

structure Tran where
  key : Int64
  autocommit : Bool
deriving DecidableEq, Repr

/-- A session, with the only transaction that its `g_tran` holds. -/
structure Session where
  catalog : Option (List UInt8)
  tran : Option Tran
deriving DecidableEq, Repr

/-- `TRAN_INVALID_ID`. -/
def tranInvalidId : Int64 := 0

/-! ### Transaction flags -/

/-- `tran_flag_get` in the flag area. -/
def tranFlagGet (cfg : Config) (flags : Int64 → TranFlag) (tid : Int64) : Except Fault TranFlag := do
  cfg.build.assert (0 ≤ tid)
  if 0 ≤ tid ∧ tid.toInt < cfg.tranCapacity then return flags tid else .error .outOfBounds

/-- `tran_flag_put` in the flag area. -/
def tranFlagPut (cfg : Config) (flags : Int64 → TranFlag) (tid : Int64) (flag : TranFlag) :
    Except Fault (Int64 → TranFlag) := do
  cfg.build.assert (0 < tid)
  if 0 ≤ tid ∧ tid.toInt < cfg.tranCapacity then return Function.update flags tid flag
  else .error .outOfBounds

/-- `tran_row_is_visible`. -/
def tranRowIsVisible (cfg : Config) (flags : Int64 → TranFlag) (tran : Tran) (tmin tmax : Int64) :
    Except Fault Bool := do
  let tid := tran.key
  cfg.build.assert (tid ≠ tranInvalidId)
  cfg.build.assert (tmin ≠ tranInvalidId)
  if tid = tmin then do
    cfg.build.assert (tid = tmax ∨ tmax = tranInvalidId)
    return tid ≠ tmax
  else if tid = tmax then return false
  else do
    let tminFlag ← tranFlagGet cfg flags tmin
    let tmaxFlag ← tranFlagGet cfg flags tmax
    if tminFlag = .commited then return tmaxFlag ≠ .commited else return false

end Scroller

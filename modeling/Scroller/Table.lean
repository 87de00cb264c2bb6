import Scroller.Database

/-!
# Meshes and tables

`lib/core/src/mesh.c` and `table.c`. The data of a table is a chain of pages; an iterator walks over its
rows, in a table with versions over the visible ones. A pointer to a page is its id.
-/

namespace Scroller

/-- `GID_MAXPAGE`. -/
def gidMaxpage : UInt64 := 0xFFFFFF

/-- `GRID_INVALID_IDX`. -/
def gridInvalidIdx : Nat := 65535

/-- An iterator over the rows of a mesh. -/
structure Mitor where
  gp : GidPair
  row : Nat
deriving DecidableEq, Repr

def mitorIsValid (db : Db) (m : Mitor) : Bool :=
  m.gp.header ≠ .undef ∧ m.gp.data ≠ .undef ∧ m.row < (db.pages m.gp.data).occupied

/-- `mitor_next`. -/
def mitorNext (db : Db) (m : Mitor) : Mitor :=
  if mitorIsValid db m then
    let m := { m with row := m.row + 1 }
    if ¬ mitorIsValid db m ∧ (db.pages m.gp.data).next ≠ .undef then
      { gp := { m.gp with data := (db.pages m.gp.data).next }, row := 0 }
    else m
  else m

/-- The id behind a tail, for the next page of its file or for a new file. -/
def nextTail (cfg : Config) (db : Db) (tail : Gid) : Except Fault (Option (Db × Gid)) := do
  if tail.page < gidMaxpage then return some (db, .ofParts tail.fileId (tail.page + 1))
  else
    match ← sequenceNextval cfg.build db.meshSequence with
    | none => return none
    | some (sequence, currval) =>
        return some ({ db with meshSequence := sequence }, .ofParts currval.toUInt64 0)

/-- `mesh_alloc_row`: the tail afterwards with the row, or `none` for an invalid iterator. -/
def meshAllocRow (cfg : Config) (db : Db) (tail : GidPair) :
    Except Fault (Db × GidPair × Option Mitor) := do
  let (data, row) := gridAllocRow (db.pages tail.data)
  let db := db.setPage tail.data data
  cfg.build.assert (data.next = .undef)
  match row with
  | some row => return (db, tail, some ⟨tail, row⟩)
  | none =>
      match ← nextTail cfg db tail.data with
      | none => return (db, tail, none)
      | some (db, newData) => do
          let oldData := db.pages tail.data
          let data ← dgridInit cfg.build cfg.pagesz oldData.content (db.pages tail.header)
          let db := db.setPage newData data
          let db := db.setPage tail.data { db.pages tail.data with next := newData }
          let (data, row) := gridAllocRow (db.pages newData)
          let db := db.setPage newData data
          let tail := { tail with data := newData }
          return (db, tail, some ⟨tail, row.getD gridInvalidIdx⟩)

structure Titor where
  m : Mitor
  tran : Option Tran
deriving DecidableEq, Repr

/-- `TMIN_IDX`. -/
def tminIdx : Nat := 0

/-- `TMAX_IDX`. -/
def tmaxIdx : Nat := 1

/-- The bytes of `"*tmin"`. -/
def tminName : List UInt8 := [42, 116, 109, 105, 110]

/-- The bytes of `"*tmax"`. -/
def tmaxName : List UInt8 := [42, 116, 109, 97, 120]

def titorIsValid (db : Db) (t : Titor) : Bool :=
  mitorIsValid db t.m ∧ ((db.pages t.m.gp.data).content = .pure ∨ t.tran ≠ none)

def mitorGetDatum (cfg : Config) (db : Db) (m : Mitor) (column : Nat) : Except Fault Datum :=
  gridGetDatum cfg.build (db.pages m.gp.header) (db.pages m.gp.data) m.row column

/-- `mitor_put_datum`; `none` is its error code 1. -/
def mitorPutDatum (cfg : Config) (db : Db) (m : Mitor) (column : Nat) (datum : Datum) :
    Except Fault (Option Db) := do
  match ← gridPutDatum cfg.build (db.pages m.gp.header) (db.pages m.gp.data) m.row column datum with
  | none => return none
  | some grid => return some (db.setPage m.gp.data grid)

/-- The call of `tran_row_is_visible` for the row under an iterator. -/
def rowIsVisible (cfg : Config) (db : Db) (tran : Option Tran) (m : Mitor) : Except Fault Bool := do
  let tmin ← mitorGetDatum cfg db m tminIdx
  let tmax ← mitorGetDatum cfg db m tmaxIdx
  match tran with
  | none => .error .nullPointer
  | some tran => tranRowIsVisible cfg db.trans.flags tran tmin.integer tmax.integer

/-- The loop of `titor_next` for a table with versions. -/
def titorNextLoop (cfg : Config) (db : Db) (tran : Option Tran) : Nat → Mitor → Except Fault Titor
  | 0, _ => .error .diverges
  | fuel + 1, m => do
      let m := mitorNext db m
      if ¬ mitorIsValid db m then return ⟨m, tran⟩
      else if ← rowIsVisible cfg db tran m then return ⟨m, tran⟩
      else titorNextLoop cfg db tran fuel m

/-- `titor_next`. -/
def titorNext (cfg : Config) (fuel : Nat) (db : Db) (t : Titor) : Except Fault Titor :=
  match (db.pages t.m.gp.data).content with
  | .pure => return { t with m := mitorNext db t.m }
  | .mvcc => titorNextLoop cfg db t.tran fuel t.m

/-- `titor_init`. -/
def titorInit (cfg : Config) (fuel : Nat) (db : Db) (tran : Option Tran) (gp : GidPair) :
    Except Fault Titor := do
  let ret : Titor := ⟨⟨gp, 0⟩, tran⟩
  match (db.pages gp.data).content with
  | .pure => return ret
  | .mvcc => do
      let tmin ← mitorGetDatum cfg db ret.m tminIdx
      let tmax ← mitorGetDatum cfg db ret.m tmaxIdx
      cfg.build.assert (tran ≠ none)
      cfg.build.assert (hgridGetColumnIdx (db.pages gp.header) tminName = some tminIdx)
      cfg.build.assert (hgridGetColumnIdx (db.pages gp.header) tmaxName = some tmaxIdx)
      cfg.build.assert (tmin.type = tTranid)
      cfg.build.assert (tmax.type = tTranid)
      if ¬ titorIsValid db ret then return ret
      else if ← rowIsVisible cfg db tran ret.m then return ret
      else titorNext cfg fuel db ret

end Scroller

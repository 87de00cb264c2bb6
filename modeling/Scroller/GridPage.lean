import Scroller.Grid
import Scroller.Lib.LittleEndian

/-!
# Grids on the bytes of their pages

`lib/core/src/grid.c` and `cell.c` once more, one level below: a grid is what lies at its address in memory,
a header of 24 bytes and the rows behind it. An address is a number, `none` is `NULL`.
-/

namespace Scroller

/-- What the addresses of the process hold. -/
abbrev Memory := Nat → UInt8

/-- Multiplication of two values that were promoted to `int`. -/
def mulInt (a b : Nat) : Except Fault Nat :=
  if a * b < 2 ^ 31 then .ok (a * b) else .error .signedOverflow

/-- `memmove` of `n` bytes; no byte is touched for `n = 0`. -/
def memmove (mem : Memory) (dest src : Option Nat) (n : Nat) : Except Fault Memory :=
  if n = 0 then .ok mem
  else
    match dest, src with
    | some dest, some src => .ok (ByteMemory.move mem dest src n)
    | _, _ => .error .nullPointer

namespace GridPage

open ByteMemory LittleEndian

/-! ### The header of a grid -/

def magic : List UInt8 := [115, 99, 114, 32]

/-- `GL_FIXED`. -/
def glFixed : UInt8 := 1

/-- The values of `GridContent`. -/
def content : GridContent → UInt8
  | .pure => 1
  | .mvcc => 2

def rowsz (mem : Memory) (grid : Nat) : Nat := load mem (grid + 16) 2

def rown (mem : Memory) (grid : Nat) : Nat := load mem (grid + 18) 2

def occupied (mem : Memory) (grid : Nat) : Nat := load mem (grid + 20) 2

def setOccupied (mem : Memory) (grid n : Nat) : Memory := store mem (grid + 20) 2 n

/-- The flexible array member `datum`. -/
def datum (grid : Nat) : Nat := grid + sizeofGrid

/-! ### Rows -/

/-- `grid_init`. -/
def init (build : Build) (mem : Memory) (page : Nat) (pagesz : UInt16) (layout : UInt8)
    (cont : GridContent) (rowsz : UInt16) : Except Fault Memory := do
  build.assert (rowsz ≠ 0)
  let mem := write mem page (List.replicate pagesz.toNat 0)
  let mem := write mem page magic
  let mem := store mem (page + 4) 2 pagesz.toNat
  let mem := store mem (page + 6) 1 layout.toNat
  let mem := store mem (page + 7) 1 (content cont).toNat
  let mem := store mem (page + 8) 8 Gid.undef.full.toNat
  let mem := store mem (page + 16) 2 rowsz.toNat
  if rowsz = 0 then .error .divisionByZero
  else return store mem (page + 18) 2 ((pagesz.toNat + 2 ^ 64 - sizeofGrid) % 2 ^ 64 / rowsz.toNat)

/-- `grid_get_row`. -/
def getRow (build : Build) (mem : Memory) (grid : Nat) (n : UInt16) : Except Fault (Option Nat) := do
  build.assert (n.toNat < rown mem grid)
  if n.toNat < occupied mem grid then do
    let offs ← mulInt (rowsz mem grid) n.toNat
    return some (datum grid + offs)
  else return none

/-- `grid_alloc_row`; `none` is `GRID_INVALID_IDX`. -/
def allocRow (mem : Memory) (grid : Nat) : Memory × Option Nat :=
  if occupied mem grid < rown mem grid then
    (setOccupied mem grid (occupied mem grid + 1), some (occupied mem grid))
  else (mem, none)

/-- `grid_delete_row`; `none` is `GRID_INVALID_IDX`. -/
def deleteRow (build : Build) (mem : Memory) (grid : Nat) (row : UInt16) :
    Except Fault (Memory × Option Nat) := do
  if row.toNat < occupied mem grid then do
    let dest ← getRow build mem grid row
    let src ← getRow build mem grid (row + 1)
    let sz ← mulInt (occupied mem grid - row.toNat - 1) (rowsz mem grid)
    let mem ← memmove mem dest src sz
    return (setOccupied mem grid (occupied mem grid - 1), some (occupied mem grid - 1))
  else return (mem, none)

/-! ### Cells -/

/-- `grid_get_row(grid, row) + hc->offs`; the pointer is used. -/
def cell (build : Build) (mem : Memory) (grid : Nat) (row : UInt16) (hc : Column) :
    Except Fault Nat := do
  match ← getRow build mem grid row with
  | none => .error .nullPointer
  | some r => return r + hc.offs.toNat

/-- `get_smallint`. -/
def getSmallint (mem : Memory) (c : Nat) : Int64 := (load mem c 2).toUInt16.toInt16.toInt64

/-- `get_integer`. -/
def getInteger (mem : Memory) (c : Nat) : Int64 := (load mem c 4).toUInt32.toInt32.toInt64

/-- `get_bigint`. -/
def getBigint (mem : Memory) (c : Nat) : Int64 := (load mem c 8).toUInt64.toInt64

/-- `put_smallint`, `put_integer` and `put_bigint`: the lowest `sz` bytes of a value. -/
def putInt (mem : Memory) (c sz : Nat) (v : Int64) : Memory := store mem c sz v.toUInt64.toNat

/-- The switch of `grid_get_datum`. The characters of a datum are those it points to. -/
def readCell (build : Build) (mem : Memory) (hc : Column) (c : Nat) : Except Fault Datum :=
  match hc.type with
  | .unknown | .name => do
      build.assert False
      return ⟨hc.type, 0, []⟩
  | .smallint => return ⟨.smallint, getSmallint mem c, []⟩
  | .integer => return ⟨.integer, getInteger mem c, []⟩
  | .bigint => return ⟨.bigint, getBigint mem c, []⟩
  | .char => return ⟨.char, 0, slice mem c hc.size.toNat⟩
  | .varchar => return ⟨.varchar, 0, slice mem c hc.size.toNat⟩

/-- `grid_get_datum`. -/
def getDatum (build : Build) (hgrid : Grid) (mem : Memory) (grid : Nat) (row : UInt16)
    (column : Nat) : Except Fault Datum := do
  gridGetRow build hgrid column
  let c ← cell build mem grid row (hgrid.columns column)
  build.assert (column < hgrid.occupied)
  readCell build mem (hgrid.columns column) c

/-- The switches of `grid_put_datum`, with whether its result is 0. The values of `T_SMALLINT` and of
`T_INTEGER` data are the low bytes of the union that `T_BIGINT` reads whole. -/
def writeCell (build : Build) (mem : Memory) (hc : Column) (c : Nat) (datum : Datum) :
    Except Fault (Memory × Bool) := do
  build.assert (datum.type ≠ .unknown)
  if datum.type = hc.type ∨ datum.type.group = hc.type.group then
    match hc.type with
    | .unknown | .name => do
        build.assert False
        return (mem, true)
    | .smallint => return (putInt mem c 2 datum.integer, true)
    | .integer => return (putInt mem c 4 datum.integer, true)
    | .bigint => return (putInt mem c 8 datum.integer, true)
    | .char => return (write mem c (putChar datum.character hc.size.toNat), true)
    | .varchar => return (mem, true)
  else do
    build.assert False
    return (mem, false)

/-- `grid_put_datum`, with whether its result is 0. -/
def putDatum (build : Build) (hgrid : Grid) (mem : Memory) (grid : Nat) (row : UInt16)
    (column : Nat) (datum : Datum) : Except Fault (Memory × Bool) := do
  gridGetRow build hgrid column
  let c ← cell build mem grid row (hgrid.columns column)
  build.assert (column < hgrid.occupied)
  writeCell build mem (hgrid.columns column) c datum

/-! ### Runs on one grid -/

/-- What clients do with the rows of a grid; a write goes to some bytes of a row. -/
inductive Op where
  | alloc
  | write (row : UInt16) (offs : Nat) (bytes : List UInt8)
  | delete (row : UInt16)

def step (build : Build) (grid : Nat) (mem : Memory) : Op → Except Fault (Memory × Option Nat)
  | .alloc => return allocRow mem grid
  | .write row offs bytes => do
      match ← getRow build mem grid row with
      | none => .error .nullPointer
      | some r => return (ByteMemory.write mem (r + offs) bytes, none)
  | .delete row => deleteRow build mem grid row

end GridPage

end Scroller

import Mathlib.Logic.Function.Basic
import Scroller.Datum
import Scroller.Gid

/-!
# Grids

`lib/core/src/grid.c`. A page holds a grid: a fixed number of row slots, the first of which are
occupied. The slots of a header grid are column definitions, those of a data grid are rows of cells, one
cell for each column.
-/

namespace Scroller

structure Column where
  name : List UInt8
  offs : UInt64
  type : DatumType
  size : UInt64
deriving DecidableEq, Repr

/-- The bytes of a cell as the type of its column reads them. -/
structure Cell where
  integer : Int64
  character : List UInt8
deriving DecidableEq, Repr

/-- A cell of zero bytes. -/
def Cell.zero : Cell := ⟨0, []⟩

/-- The cells of a row, by the index of their column. They stand for the bytes of the row where its columns
lie apart within it (`Grid.Laid`). -/
abbrev Row := Nat → Cell

def Row.zero : Row := fun _ => .zero

inductive GridContent where
  | pure
  | mvcc
deriving DecidableEq, Repr

structure Grid where
  content : GridContent
  next : Gid
  rowsz : Nat
  rown : Nat
  occupied : Nat
  datasz : Nat
  columns : Nat → Column
  rows : Nat → Row

/-- `sizeof(Grid)`. -/
def sizeofGrid : Nat := 24

/-- `sizeof(Column)`. -/
def sizeofColumn : Nat := 40

/-- `NAMESZ`. -/
def namesz : Nat := 16

/-- `align_up`; its second parameter is an `int`. -/
def alignUp (sz align : UInt64) : UInt64 :=
  let align := align.toInt64.toInt32.toInt64.toUInt64
  (sz + align - 1) &&& ~~~(align - 1)

/-- `grid_init`. The page is zeroed, and the sizes are cut to the 16 bits of their fields. -/
def gridInit (build : Build) (pagesz : Nat) (content : GridContent) (rowsz : Nat) :
    Except Fault Grid := do
  let rowsz := rowsz % 2 ^ 16
  build.assert (rowsz ≠ 0)
  if rowsz = 0 then .error .divisionByZero
  else return {
    content
    next := .undef
    rowsz
    rown := (pagesz % 2 ^ 16 + 2 ^ 64 - sizeofGrid) % 2 ^ 64 / rowsz % 2 ^ 16
    occupied := 0
    datasz := 0
    columns := fun _ => ⟨[], 0, .unknown, 0⟩
    rows := fun _ => .zero }

/-- `grid_alloc_row`; `none` is `GRID_INVALID_IDX`. -/
def gridAllocRow (grid : Grid) : Grid × Option Nat :=
  if grid.occupied < grid.rown then ({ grid with occupied := grid.occupied + 1 }, some grid.occupied)
  else (grid, none)

/-- `grid_get_row` followed by a use of the pointer it returns. -/
def gridGetRow (build : Build) (grid : Grid) (n : Nat) : Except Fault Unit := do
  build.assert (n < grid.rown)
  if n < grid.occupied then return else .error .nullPointer

/-- `grid_delete_row` for a valid row: the rows behind it move up. -/
def gridDeleteRow (grid : Grid) (row : Nat) : Grid :=
  { grid with
    rows := fun n => if n < row then grid.rows n else grid.rows (n + 1)
    occupied := grid.occupied - 1 }

/-- The switch of `grid_get_datum`. -/
def getCell (build : Build) (hc : Column) (cell : Cell) : Except Fault Datum :=
  match hc.type with
  | .unknown | .name => do
      build.assert False
      return ⟨hc.type, 0, []⟩
  | .smallint | .integer | .bigint => return ⟨hc.type, cell.integer, []⟩
  | .char | .varchar =>
      return ⟨hc.type, 0, (List.range hc.size.toNat).map fun i => cell.character.getD i 0⟩

/-- `grid_get_datum`. -/
def gridGetDatum (build : Build) (hgrid grid : Grid) (row column : Nat) : Except Fault Datum := do
  gridGetRow build hgrid column
  gridGetRow build grid row
  build.assert (column < hgrid.occupied)
  getCell build (hgrid.columns column) (grid.rows row column)

/-- The switches of `grid_put_datum`: the cell afterwards, or `none` for a type mismatch. -/
def putCell (build : Build) (hc : Column) (cell : Cell) (datum : Datum) :
    Except Fault (Option Cell) := do
  build.assert (datum.type ≠ .unknown)
  if datum.type = hc.type ∨ datum.type.group = hc.type.group then
    match hc.type with
    | .unknown | .name => do
        build.assert False
        return some cell
    | .smallint => return some { cell with integer := datum.integer.toInt16.toInt64 }
    | .integer => return some { cell with integer := datum.integer.toInt32.toInt64 }
    | .bigint => return some { cell with integer := datum.integer }
    | .char => return some { cell with character := putChar datum.character hc.size.toNat }
    | .varchar => return some cell
  else do
    build.assert False
    return none

/-- `grid_put_datum`; `none` is its error code 1. It writes no cell but its own, which is what the write at
`hc->offs` does where the columns of the header lie apart. -/
def gridPutDatum (build : Build) (hgrid grid : Grid) (row column : Nat) (datum : Datum) :
    Except Fault (Option Grid) := do
  gridGetRow build hgrid column
  gridGetRow build grid row
  build.assert (column < hgrid.occupied)
  match ← putCell build (hgrid.columns column) (grid.rows row column) datum with
  | none => return none
  | some cell =>
      return some { grid with
        rows := Function.update grid.rows row (Function.update (grid.rows row) column cell) }

/-- `hgrid_add_column`; `none` is `NULL`. -/
def hgridAddColumn (grid : Grid) (name : List UInt8) (type : DatumType) (size : UInt64) :
    Option Grid :=
  match gridAllocRow grid with
  | (_, none) => none
  | (grid, some columnIdx) =>
      let cursz := type.cellsz size
      let offs := alignUp (.ofNat grid.datasz) cursz
      some { grid with
        columns := Function.update grid.columns columnIdx ⟨name.take (namesz - 1), offs, type, size⟩
        datasz := (offs + cursz).toNat % 2 ^ 16 }

/-- `hgrid_get_column_idx`; `none` is `GRID_INVALID_IDX`. -/
def hgridGetColumnIdx (grid : Grid) (name : List UInt8) : Option Nat :=
  (List.range grid.occupied).find? fun i => (grid.columns i).name = name

/-- `hgrid_get_row_size`. -/
def hgridGetRowSize (grid : Grid) : Nat := (alignUp (.ofNat grid.datasz) 4).toNat

/-- `dgrid_init`. -/
def dgridInit (build : Build) (pagesz : Nat) (content : GridContent) (hgrid : Grid) :
    Except Fault Grid :=
  gridInit build pagesz content (hgridGetRowSize hgrid)

end Scroller

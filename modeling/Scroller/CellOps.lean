import Scroller.Dml
import Scroller.GridPage

/-!
# The clients of data grids

What is done with the data grids in the frames of the page cache, on the bytes of the frames and on rows of
cells. Frame `n` lies at `g_pages + n * PAGESZ`; its header grid stays the same.
-/

namespace Scroller

inductive CellOp where
  | init (cont : GridContent)
  | alloc
  | put (row : UInt16) (column : Nat) (datum : Datum)
  | get (row : UInt16) (column : Nat)
  | delete (row : UInt16)

inductive CellAnswer where
  | done
  | row (idx : Option Nat)
  | put (ok : Bool)
  | datum (d : Datum)

/-- What is known of a frame: nothing before `dgrid_init`, and nothing about the slots behind the rows in use once
a row was deleted. -/
inductive FrameState where
  | raw
  | clean
  | used
deriving DecidableEq

namespace FrameState

/-- A grid is initialised first, and none gets a row again after it has lost one. -/
def Allows : FrameState → CellOp → Prop
  | .raw, .init _ => True
  | .raw, .alloc | .raw, .put _ _ _ | .raw, .get _ _ | .raw, .delete _ => False
  | .clean, _ => True
  | .used, .alloc => False
  | .used, .init _ | .used, .put _ _ _ | .used, .get _ _ | .used, .delete _ => True

def next : FrameState → CellOp → FrameState
  | _, .init _ => .clean
  | s, .alloc | s, .put _ _ _ | s, .get _ _ => s
  | _, .delete _ => .used

end FrameState

/-- The frames after the operations. -/
def framesAfter (states : Nat → FrameState) (ops : List (Nat × CellOp)) : Nat → FrameState :=
  ops.foldl (fun states op => Function.update states op.1 ((states op.1).next op.2)) states

/-- Every operation is one that its frame allows. -/
def Orderly : (Nat → FrameState) → List (Nat × CellOp) → Prop
  | _, [] => True
  | states, op :: ops =>
      (states op.1).Allows op.2 ∧ Orderly (Function.update states op.1 ((states op.1).next op.2)) ops

/-! ### On the bytes -/

namespace GridPage

/-- The address of a frame. -/
def frame (gPages : Nat) (pagesz : UInt16) (n : Nat) : Nat := gPages + n * pagesz.toNat

def cellStep (build : Build) (hgrid : Grid) (pagesz : UInt16) (page : Nat) (mem : Memory) :
    CellOp → Except Fault (Memory × CellAnswer)
  | .init cont => do
      let mem ← init build mem page pagesz glFixed cont (hgridGetRowSize hgrid).toUInt16
      return (mem, .done)
  | .alloc => return ((allocRow mem page).1, .row (allocRow mem page).2)
  | .put row column datum => do
      let (mem, ok) ← putDatum build hgrid mem page row column datum
      return (mem, .put ok)
  | .get row column => do return (mem, .datum (← getDatum build hgrid mem page row column))
  | .delete row => do
      let (mem, idx) ← deleteRow build mem page row
      return (mem, .row idx)

def frameStep (build : Build) (headers : Nat → Grid) (gPages : Nat) (pagesz : UInt16) (mem : Memory)
    (op : Nat × CellOp) : Except Fault (Memory × CellAnswer) :=
  cellStep build (headers op.1) pagesz (frame gPages pagesz op.1) mem op.2

end GridPage

/-! ### On the cells -/

namespace Grid

/-- `grid_delete_row` also gets the row behind the deleted one, which has to be a slot of the grid. -/
def cellStep (build : Build) (hgrid : Grid) (pagesz : UInt16) (grid : Grid) :
    CellOp → Except Fault (Grid × CellAnswer)
  | .init cont => do return (← dgridInit build pagesz.toNat cont hgrid, .done)
  | .alloc => return ((gridAllocRow grid).1, .row (gridAllocRow grid).2)
  | .put row column datum => do
      match ← gridPutDatum build hgrid grid row.toNat column datum with
      | none => return (grid, .put false)
      | some grid => return (grid, .put true)
  | .get row column => do return (grid, .datum (← gridGetDatum build hgrid grid row.toNat column))
  | .delete row =>
      if row.toNat < grid.occupied then do
        build.assert (row.toNat + 1 < grid.rown)
        return (gridDeleteRow grid row.toNat, .row (some (grid.occupied - 1)))
      else return (grid, .row none)

def frameStep (build : Build) (headers : Nat → Grid) (pagesz : UInt16) (grids : Nat → Grid) (op : Nat × CellOp) :
    Except Fault ((Nat → Grid) × CellAnswer) := do
  let (grid, answer) ← cellStep build (headers op.1) pagesz (grids op.1) op.2
  return (Function.update grids op.1 grid, answer)

end Grid

/-! ### The calls that commands make

What commands do to the rows of tables they do by calls of `grid.c`. A call is done on the rows of cells of the
database or on the bytes of memory, where every page has a frame of its own. -/

/-- The page size as `grid_init` is given it. -/
def Config.psz (cfg : Config) : UInt16 := cfg.pagesz.toUInt16

/-- The address of the frame of a page. -/
def Config.frame (cfg : Config) (g : Gid) : Nat := g.full.toNat * cfg.pagesz

/-- A call on the data grid of a page, with its header. -/
structure PageCall where
  hgrid : Grid
  page : Gid
  op : CellOp

/-- A call on the bytes. -/
def GridPage.call (cfg : Config) (mem : Memory) (c : PageCall) : Except Fault (Memory × CellAnswer) :=
  cellStep cfg.build c.hgrid cfg.psz (cfg.frame c.page) mem c.op

/-- A call on the cells. -/
def Db.call (cfg : Config) (db : Db) (c : PageCall) : Except Fault (Db × CellAnswer) := do
  let (grid, answer) ← Grid.cellStep cfg.build c.hgrid cfg.psz (db.pages c.page) c.op
  return (db.setPage c.page grid, answer)

/-- Two grids with the same rows and the same room. -/
structure Grid.SameRows (g g' : Grid) : Prop where
  rown : g'.rown = g.rown
  occupied : g'.occupied = g.occupied
  rows : g'.rows = g.rows

/-- The pages of the data of a table. -/
def Db.HasData (db : Db) (row : RelationRow) (g : Gid) : Prop :=
  row.dataGid ≠ 0 ∧ (g = row.data ∨ (db.pages row.data).next ≠ .undef ∧ g = (db.pages row.data).next)

/-- No row of a table differs. -/
def Db.SameRows (db db' : Db) : Prop :=
  ∀ row ∈ db'.relation.rows, ∀ g, db'.HasData row g → (db.pages g).SameRows (db'.pages g)

/-- The calls that lead from one database to another, with their answers. Between the calls nothing happens to the
rows of tables: system tables change, a page gets a successor, a new header is written. -/
inductive Db.Calls (cfg : Config) : Db → List (PageCall × CellAnswer) → Db → Prop where
  | refl (db : Db) : Db.Calls cfg db [] db
  | same {db db₁ db' : Db} {hist : List (PageCall × CellAnswer)} (hsame : db.SameRows db₁)
      (hrest : Db.Calls cfg db₁ hist db') : Db.Calls cfg db hist db'
  | call {db db₁ db' : Db} {c : PageCall} {answer : CellAnswer} {hist : List (PageCall × CellAnswer)}
      (hcall : db.call cfg c = .ok (db₁, answer)) (hrest : Db.Calls cfg db₁ hist db') :
      Db.Calls cfg db ((c, answer) :: hist) db'

end Scroller

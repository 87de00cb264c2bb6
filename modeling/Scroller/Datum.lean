import Mathlib.Data.List.DropRight
import Mathlib.Data.UInt
import Scroller.Basic

/-!
# Data and their types

The part of `lib/core/src/type.c` and `cell.c` that storing rows and finding tables rests on: the types
with their groups, the data that travel between commands and cells, and the comparison of characters.
Strings are the bytes in front of their terminator.
-/

namespace Scroller

inductive TypeGroup where
  | unknown
  | integer
  | character
deriving DecidableEq, Repr

/-- `Type`, without the count `T_MAX`. -/
inductive DatumType where
  | unknown
  | name
  | smallint
  | integer
  | bigint
  | char
  | varchar
deriving DecidableEq, Repr

namespace DatumType

/-- `g_types[type].group`. -/
def group : DatumType → TypeGroup
  | .unknown | .name => .unknown
  | .smallint | .integer | .bigint => .integer
  | .char | .varchar => .character

/-- The size that `hgrid_add_column` counts for a column: `g_types[type].size`, or the size of the column
where the type leaves it to the column. -/
def cellsz (type : DatumType) (columnsz : UInt64) : UInt64 :=
  match type with
  | .unknown | .name => 0
  | .smallint | .varchar => 2
  | .integer => 4
  | .bigint => 8
  | .char => columnsz

end DatumType

/-- `T_TRANID`. -/
def tTranid : DatumType := .bigint

/-- A datum: its integer value, or the `size` bytes of its characters. -/
structure Datum where
  type : DatumType
  integer : Int64
  character : List UInt8
deriving DecidableEq, Repr

def makeBigint (v : Int64) : Datum := ⟨.bigint, v, []⟩

def makeTranid (v : Int64) : Datum := makeBigint v

/-- `make_char`; `NULL` has size 0. -/
def makeChar (v : List UInt8) : Datum := ⟨.char, 0, v⟩

def makeName (v : List UInt8) : Datum := ⟨.name, 0, v⟩

/-- `put_char`: the bytes of a cell of `dsize` bytes, filled up with blanks. -/
def putChar (src : List UInt8) (dsize : Nat) : List UInt8 :=
  src.take dsize ++ List.replicate (dsize - src.length) 32

/-- `char2varchar` takes the blanks off the end. -/
def charToVarchar (s : List UInt8) : List UInt8 := s.rdropWhile (· = 32)

/-- `memcmp` over the shorter of two strings. -/
def memcmp : List UInt8 → List UInt8 → Int
  | a :: as, b :: bs => if a = b then memcmp as bs else if a < b then -1 else 1
  | _, _ => 0

/-- `cmp_character` of two `T_CHAR` data. -/
def cmpCharacter (d1 d2 : List UInt8) : Int :=
  let d1 := charToVarchar d1
  let d2 := charToVarchar d2
  let ret := memcmp d1 d2
  if ret = 0 then
    if d1.length < d2.length then -1 else if d1.length > d2.length then 1 else 0
  else ret

def eqCharacter (d1 d2 : List UInt8) : Bool := cmpCharacter d1 d2 = 0

end Scroller

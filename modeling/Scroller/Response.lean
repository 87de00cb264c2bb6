import Scroller.ExecuteCmd
import Scroller.Scrc

/-!
# The bytes of a response

What the actions of `execute.y` hand to `session_send` for the parts of a response. Rows are sent as the bytes of
their slots; the map from rows to these bytes is a parameter, since the cells of a row say only what its columns
read.
-/

namespace Scroller

open LittleEndian

/-- The number of a `Type`. -/
def DatumType.number : DatumType → Nat
  | .unknown => 0
  | .name => 1
  | .smallint => 2
  | .integer => 3
  | .bigint => 4
  | .char => 5
  | .varchar => 6

/-- The number of a `ScrcStatus`. -/
def ScrcStatus.number : ScrcStatus → Nat
  | .ok => 0
  | .parserError => 102
  | .sendError => 105
  | .sessionClosed => 106
  | .unknownRelation => 108
  | .unknownColumn => 109
  | .badAlloc => 110
  | .datumTypeMismatch => 111
  | .sequenceOverflow => 112
  | .bytecodeStackOverflow => 113
  | .bytecodeUnbalancedStack => 114
  | .transactionStartError => 117
  | .noTransaction => 118
  | .unknownServerError => 119

/-- The slot of a column in its header page. The struct ends its name with zeros, and pads the type to the
alignment of the size. -/
def Column.bytes (c : Column) : List UInt8 :=
  (c.name ++ List.replicate namesz 0).take namesz ++ toBytes 8 c.offs.toNat
    ++ (toBytes 2 c.type.number ++ List.replicate 6 0) ++ toBytes 8 c.size.toNat

/-- The bytes that `grid_put_datum` stores for a column, out of those of a row. -/
def Column.stored (c : Column) (row : List UInt8) : List UInt8 :=
  (row.drop c.offs.toNat).take (c.type.cellsz c.size).toNat

namespace Execute

/-- A command, as its bytes. -/
def cmdBytes (cmd : UInt32) : List UInt8 := toBytes sizeofScrcCmd cmd.toNat

/-- A size, as its bytes. -/
def sizeBytes (size : Nat) : List UInt8 := toBytes sizeofSizeT size

/-- `session_send_header_str`. -/
def headerStr (name value : List UInt8) : List (List UInt8) :=
  [name, ascii ": ", value, ascii "\n"]

/-- `session_send_header_int`. -/
def headerInt (name : List UInt8) (value : Nat) : List (List UInt8) :=
  headerStr name (ascii (toString value))

/-- `session_finish_header`. -/
def finishHeader : List (List UInt8) := [ascii "$$\n"]

/-- The arguments of the calls of `session_send` for a part of a response. -/
def Piece.sends (rowBytes : Row → List UInt8) : Piece → List (List UInt8)
  | .status s => headerInt (ascii "Status") s.number ++ finishHeader
  | .bodyHeader =>
      headerInt (ascii "Status") ScrcStatus.ok.number ++ headerStr (ascii "Body") (ascii "Yes")
        ++ finishHeader
  | .tabheader => [cmdBytes scrcCmdTabheader]
  | .column c => [cmdBytes scrcCmdRow, sizeBytes sizeofColumn, c.bytes]
  | .finish => [cmdBytes scrcCmdEnd]
  | .tabdata => [cmdBytes scrcCmdTabdata]
  | .row size r => [cmdBytes scrcCmdRow, sizeBytes size, rowBytes r]

/-- The bytes of a response. -/
def response (rowBytes : Row → List UInt8) (pieces : List Piece) : List UInt8 :=
  (pieces.flatMap (Piece.sends rowBytes)).flatten

end Execute

end Scroller

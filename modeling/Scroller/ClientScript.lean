import Scroller.ScrcSend
import Scroller.Script

/-!
# The console client

`src/scrc/main.c`: lines are read from a script or from the user and put together up to one with a semicolon, and the
query is sent. What is printed is kept here without its layout.
-/

namespace Scroller

open ByteMemory

/-- `BUFFER_SIZE`. -/
def bufferSize : Nat := 65536

/-- The lines that `fgets` gives of a text; `room` is what the buffer takes behind the next character. -/
def fgetsLines (size : Nat) : Nat → List UInt8 → List (List UInt8)
  | _, [] => []
  | room, c :: s =>
      if c = 10 ∨ room = 0 then [c] :: fgetsLines size size s
      else
        match fgetsLines size (room - 1) s with
        | [] => [[c]]
        | l :: ls => (c :: l) :: ls

/-- What `fgets(line, sizeof(line), stdin)` gives until the end of the input. A line has its null byte in the
buffer, too. -/
def inputLines (text : List UInt8) : List (List UInt8) := fgetsLines (bufferSize - 2) (bufferSize - 2) text

namespace CStr

def empty : CStr := ⟨[], List.not_mem_nil⟩

/-- The string at the start of a buffer. -/
def ofBuffer (s : List UInt8) : CStr where
  bytes := Hquery.terminated s
  nul hmem := by simpa using List.mem_takeWhile_imp hmem

def append (s t : CStr) : CStr where
  bytes := s.bytes ++ t.bytes
  nul hmem := (List.mem_append.mp hmem).elim s.nul t.nul

end CStr

/-- `is_exit_command`. A string has its null byte behind it. -/
def isExitCommand (line : CStr) : Bool :=
  let line := line.bytes.dropWhile isspace
  (line.take 4 = ascii "exit" ∨ line.take 4 = ascii "quit") ∧ ((line.drop 4).head? = some 10 ∨ line.length = 4)

namespace ScrcConnection

/-- `c->type` of the bytes of a column. -/
def columnType (c : List UInt8) : Nat := LittleEndian.ofBytes ((c.drop 24).take 2)

/-- How much of a cell `print_response_body` reads; `g_types` has an entry for each type. -/
def printedSize (c : List UInt8) : Except Fault Nat :=
  match columnType c with
  | 0 => return 0
  | 1 => return 0
  | 2 => return 2
  | 3 => return 4
  | 4 => return 8
  | 5 => return columnSize c
  | 6 => return columnSize c
  | _ => .error .outOfBounds

/-- The loop of `print_response_body` over the cells of a row, from column `i` on. -/
def printCells (row : Nat) : Nat → Nat → ScrcConnection → Except Fault (ScrcConnection × List (List UInt8))
  | 0, _, conn => return (conn, [])
  | left + 1, i, conn => do
      let size ← printedSize (conn.columns.getD i [])
      match conn.scrcFetchCell (some row) i with
      | (conn, _, some ⟨some data, _⟩) =>
          if fullsz < data + size then .error .outOfBounds
          else
            let (conn, cells) ← printCells row left (i + 1) conn
            return (conn, slice conn.rbuf data size :: cells)
      | _ => .error .nullPointer

/-- The loop of `print_response_body` over the rows: the status it ends with and what it has printed. -/
def printRows : Nat → ScrcConnection → Except Fault (ScrcConnection × UInt32 × List (List (List UInt8)))
  | 0, _ => .error .diverges
  | fuel + 1, conn => do
      match ← conn.scrcFetchRow with
      | (conn, status, some (some (row, _))) =>
          if status ≠ scrcOk then return (conn, status, [])
          else
            let (conn, cells) ← printCells row conn.columns.length 0 conn
            let (conn, status, rows) ← printRows fuel conn
            return (conn, status, cells :: rows)
      -- without a body, where this is not called, `row` would stay as it is
      | (conn, status, _) => return (conn, status, [])

/-- `print_response_body`. A row has at least its command, so that the bytes left bound the rows. -/
def printResponseBody (conn : ScrcConnection) : Except Fault (ScrcConnection × UInt32 × List (List (List UInt8))) :=
  printRows (conn.left + 1) conn

end ScrcConnection

open ScrcConnection

/-- What the client prints: `Ok`, the columns and rows of a response with the status behind them, the error of a
query, and that a query is too large. -/
inductive Printed where
  | ok
  | table (columns : List (List UInt8)) (rows : List (List (List UInt8))) (status : UInt32)
  | error (status : UInt32)
  | tooLarge
deriving DecidableEq

/-- A connection with both directions of its socket, and what has been printed. -/
structure Console where
  conn : ScrcConnection
  sockfd : Outbound
  printed : List Printed

namespace Console

def print (c : Console) (p : Printed) : Console := { c with printed := c.printed ++ [p] }

/-- What `scrc_query` sends: nothing where the connection has a status. -/
def send (stack : Nat → UInt8) (c : Console) (query : CStr) : Except Fault (Outbound × UInt32) :=
  if c.conn.status ≠ scrcOk then return (c.sockfd, scrcOk) else sendQuery c.sockfd stack query

/-- What both loops do with a query: the status of `scrc_query` where it fails, and else the one behind the
response. -/
def ask (stack : Nat → UInt8) (c : Console) (query : CStr) : Except Fault (Console × Except UInt32 UInt32) := do
  let (sockfd, sent) ← c.send stack query
  let (conn, status) ← c.conn.scrcQuery (some query.bytes) sent
  if status ≠ scrcOk then return ({ c with conn, sockfd }.print (.error conn.status), .error status)
  else if conn.body then
    let (conn, status, rows) ← conn.printResponseBody
    return ({ c with conn, sockfd }.print (.table conn.columns rows status), .ok status)
  else return ({ c with conn, sockfd }.print .ok, .ok status)

/-- The loop of `client_run_script`, and what it does with the rest at the end of the input. -/
def scriptLoop (stack : Nat → UInt8) :
    List (List UInt8) → Console → CStr → LineState → UInt32 → Except Fault (Console × UInt32)
  | [], c, query, _, status =>
      if query.bytes.dropWhile isspace = [] then return (c, status)
      else do
        match ← c.ask stack query with
        | (c, .error status) => return (c, status)
        | (c, .ok status) => return (c, status)
  | line :: lines, c, query, st, status =>
      let line := CStr.ofBuffer line
      if bufferSize ≤ query.bytes.length + line.bytes.length then return (c.print .tooLarge, scrcBufferOverflow)
      else
        let r := lineHasSemicolon st line.bytes
        if r.found then do
          match ← c.ask stack (query.append line) with
          | (c, .error status) => return (c, status)
          | (c, .ok status) => scriptLoop stack lines c CStr.empty r.state status
        else scriptLoop stack lines c (query.append line) r.state status

/-- `client_run_script`. -/
def clientRunScript (stack : Nat → UInt8) (c : Console) (text : List UInt8) : Except Fault (Console × UInt32) :=
  c.scriptLoop stack (inputLines text) CStr.empty LineState.start scrcOk

/-- The loop of `client_run_interactive`. -/
def interactiveLoop (stack : Nat → UInt8) :
    List (List UInt8) → Console → CStr → LineState → UInt32 → Except Fault (Console × UInt32)
  | [], c, _, _, status => return (c, status)
  | line :: lines, c, query, st, status =>
      let line := CStr.ofBuffer line
      if query.bytes = [] ∧ isExitCommand line then return (c, status)
      else if bufferSize ≤ query.bytes.length + line.bytes.length then
        interactiveLoop stack lines (c.print .tooLarge) CStr.empty st status
      else
        let r := lineHasSemicolon st line.bytes
        if r.found then do
          match ← c.ask stack (query.append line) with
          | (c, .error status) => interactiveLoop stack lines c CStr.empty r.state status
          | (c, .ok status) => interactiveLoop stack lines c CStr.empty r.state status
        else interactiveLoop stack lines c (query.append line) r.state status

/-- `client_run_interactive`. -/
def clientRunInteractive (stack : Nat → UInt8) (c : Console) (text : List UInt8) :
    Except Fault (Console × UInt32) :=
  c.interactiveLoop stack (inputLines text) CStr.empty LineState.start scrcOk

end Console

end Scroller

import Scroller.Grid
import Scroller.Lib.ByteMemory
import Scroller.Lib.LittleEndian
import Scroller.Socket

/-!
# The client library

`lib/core/src/scrc.c`: the receive buffer, the header lines, rows and commands that are read from it, and the
calls a client makes. A pointer into the buffer is its offset; what is behind the bytes received is memory
like any other.
-/

namespace Scroller

open ByteMemory

/-! ### Status codes and commands -/

def scrcOk : UInt32 := 0
def scrcEnd : UInt32 := 1
def scrcConnectionClosed : UInt32 := 9
def scrcRecvError : UInt32 := 11
def scrcProtocolError : UInt32 := 12
def scrcHeaderError : UInt32 := 13
def scrcHeaderTooLarge : UInt32 := 14
def scrcUnknownCommand : UInt32 := 15
def scrcBufferOverflow : UInt32 := 16
def scrcIncorrectParam : UInt32 := 17
def scrcOutOfRange : UInt32 := 18

def scrcCmdTabheader : UInt32 := 1
def scrcCmdTabdata : UInt32 := 2
def scrcCmdRow : UInt32 := 3
def scrcCmdEnd : UInt32 := 4

def sizeofScrcCmd : Nat := 4
def sizeofSizeT : Nat := 8

/-- `BUFSZ`. -/
def bufsz : Nat := 65536

/-- `RESERVESZ`. -/
def reservesz : Nat := bufsz

/-- `FULLSZ`. -/
def fullsz : Nat := bufsz + reservesz

/-- `HEADER_MAX`. -/
def headerMax : Nat := bufsz / 2

/-! ### Strings -/

/-- The bytes of a string literal. -/
def ascii (s : String) : List UInt8 := s.toList.map fun c => c.toNat.toUInt8

/-- `isspace`. -/
def isspace (c : UInt8) : Bool := c = 32 || (9 ≤ c && c ≤ 13)

def isdigit (c : UInt8) : Bool := 48 ≤ c && c ≤ 57

/-- `strtol` with base 10: the value and what `end` points at, or `none` where `errno` is `ERANGE`. -/
def strtol (s : List UInt8) : Option (Int × List UInt8) :=
  let t := s.dropWhile isspace
  let negative := t.head? = some 45
  let t := if t.head? = some 45 ∨ t.head? = some 43 then t.tail else t
  let digits := t.takeWhile isdigit
  if digits = [] then some (0, s)
  else
    let n := digits.foldl (fun (n : Nat) d => 10 * n + (d.toNat - 48)) 0
    let value : Int := if negative then -n else n
    if -2 ^ 63 ≤ value ∧ value < 2 ^ 63 then some (value, t.dropWhile isdigit) else none

/-- The string that starts at a pointer into the receive buffer. -/
def cStringLoop (rbuf : Nat → UInt8) : Nat → Nat → Except Fault (List UInt8)
  | 0, _ => .error .outOfBounds
  | left + 1, p =>
      if rbuf p = 0 then return []
      else do
        let s ← cStringLoop rbuf left (p + 1)
        return rbuf p :: s

def cString (rbuf : Nat → UInt8) (p : Nat) : Except Fault (List UInt8) :=
  cStringLoop rbuf (fullsz - p) p

/-- A loop of `trim` that goes forward while `go` holds; `left` is what the buffer has behind `p`. -/
def forward (rbuf : Nat → UInt8) (go : UInt8 → Bool) : Nat → Nat → Except Fault Nat
  | 0, _ => .error .outOfBounds
  | left + 1, p => if go (rbuf p) then forward rbuf go left (p + 1) else return p

/-- The loop of `trim` that goes back over spaces, from the character in front of `c`. -/
def backward (rbuf : Nat → UInt8) (src : Nat) : Nat → Except Fault Nat
  | 0 => .error .outOfBounds
  | c + 1 => if c ≠ src ∧ isspace (rbuf c) then backward rbuf src c else return c

/-- `trim`. -/
def trim (rbuf : Nat → UInt8) (src : Nat) : Except Fault ((Nat → UInt8) × Nat) :=
  if fullsz ≤ src then .error .outOfBounds
  else if rbuf src = 0 then return (rbuf, src)
  else do
    let src ← forward rbuf isspace (fullsz - src) src
    let c ← forward rbuf (fun b => b ≠ 0 && b ≠ 10) (fullsz - src) src
    let c ← backward rbuf src c
    return (Function.update rbuf (c + 1) 0, src)

/-! ### The connection -/

/-- `ScrcConnection`. A column is its bytes; `columnsz` is the length of the list. -/
structure ScrcConnection where
  status : UInt32
  columns : List (List UInt8)
  rbuf : Nat → UInt8
  rlen : Nat
  rpos : Nat
  body : Bool
  sockfd : Inbound

namespace ScrcConnection

/-- The compaction in `recv_refill`. -/
def compact (conn : ScrcConnection) : ScrcConnection :=
  if fullsz - conn.rlen < reservesz then
    let valid := conn.rlen - conn.rpos
    { conn with
      rbuf := if 0 < valid ∧ 0 < conn.rpos then move conn.rbuf 0 conn.rpos valid else conn.rbuf
      rlen := valid
      rpos := 0 }
  else conn

/-- `recv` of at most `n` bytes returns `0` where it has no space or the stream has ended. -/
def recvBytes (n : Nat) (sockfd : Inbound) : Inbound × Except UInt32 (List UInt8) :=
  if sockfd.arriving.take n = [] then (sockfd, .error scrcConnectionClosed)
  else ({ sockfd with arriving := sockfd.arriving.drop n }, .ok (sockfd.arriving.take n))

/-- The loop around `recv`, which fills `space` bytes at most. -/
def recvLoop (space : Nat) (arriving : List UInt8) :
    List Transfer → List Nat → Inbound × Except UInt32 (List UInt8)
  | .interrupted :: outcomes, asked => recvLoop space arriving outcomes (space :: asked)
  | .failed :: outcomes, asked => (⟨outcomes, arriving, space :: asked⟩, .error scrcRecvError)
  | .closed :: outcomes, asked =>
      (⟨outcomes, arriving, space :: asked⟩, .error scrcConnectionClosed)
  | .moved more :: outcomes, asked =>
      recvBytes (min (more + 1) space) ⟨outcomes, arriving, space :: asked⟩
  | [], asked => recvBytes space ⟨[], arriving, space :: asked⟩

/-- `recv_refill`. -/
def recvRefill (conn : ScrcConnection) : ScrcConnection × Except UInt32 Unit :=
  let conn := conn.compact
  let space := fullsz - conn.rlen
  match recvLoop space conn.sockfd.arriving conn.sockfd.outcomes conn.sockfd.asked with
  | (sockfd, .error ret) => ({ conn with sockfd }, .error ret)
  | (sockfd, .ok bytes) =>
      ({ conn with
          rbuf := write conn.rbuf conn.rlen bytes
          rlen := conn.rlen + bytes.length
          sockfd }, .ok ())

/-- The loop of `recv_block`. Every refill that succeeds brings a byte, so that `size` rounds are enough. -/
def recvBlockLoop (size : Nat) :
    Nat → ScrcConnection → Except Fault (ScrcConnection × Except UInt32 Unit)
  | 0, conn =>
      if conn.rlen - conn.rpos < size then .error .diverges else return (conn, .ok ())
  | fuel + 1, conn =>
      if conn.rlen - conn.rpos < size then
        match conn.recvRefill with
        | (conn, .error ret) => return (conn, .error ret)
        | (conn, .ok ()) => recvBlockLoop size fuel conn
      else return (conn, .ok ())

/-- `recv_block`. -/
def recvBlock (conn : ScrcConnection) (size : Nat) :
    Except Fault (ScrcConnection × Except UInt32 Nat) := do
  if bufsz < size then return (conn, .error scrcBufferOverflow)
  match ← recvBlockLoop size size conn with
  | (conn, .error ret) => return (conn, .error ret)
  | (conn, .ok ()) => return ({ conn with rpos := conn.rpos + size }, .ok conn.rpos)

/-- `recv_cmd`. -/
def recvCmd (conn : ScrcConnection) : Except Fault (ScrcConnection × Except UInt32 UInt32) := do
  match ← conn.recvBlock sizeofScrcCmd with
  | (conn, .error ret) => return (conn, .error ret)
  | (conn, .ok p) =>
      return (conn, .ok (LittleEndian.ofBytes (slice conn.rbuf p sizeofScrcCmd)).toUInt32)

/-- The answer to a command that does not fit. -/
def unexpectedCmd (cmd : UInt32) : UInt32 :=
  if cmd = scrcCmdTabheader ∨ cmd = scrcCmdTabdata ∨ cmd = scrcCmdRow ∨ cmd = scrcCmdEnd then
    scrcProtocolError
  else scrcUnknownCommand

/-- `recv_row`: the pointer to the row and its size. -/
def recvRow (conn : ScrcConnection) : Except Fault (ScrcConnection × Except UInt32 (Nat × Nat)) := do
  let (conn, ret) ← conn.recvCmd
  -- the status of `recv_cmd` is not looked at, and without a command `cmd` is zero
  let cmd := ret.toOption.getD 0
  if cmd = scrcCmdEnd then return (conn, .error scrcEnd)
  else if cmd ≠ scrcCmdRow then return (conn, .error (unexpectedCmd cmd))
  else
    match ← conn.recvBlock sizeofSizeT with
    | (conn, .error ret) => return (conn, .error ret)
    | (conn, .ok p) =>
        let size := LittleEndian.ofBytes (slice conn.rbuf p sizeofSizeT)
        match ← conn.recvBlock size with
        | (conn, .error ret) => return (conn, .error ret)
        | (conn, .ok p) => return (conn, .ok (p, size))

/-! ### The header -/

/-- `HeaderLine`, two pointers into the buffer. -/
structure HeaderLine where
  name : Nat
  value : Option Nat
deriving DecidableEq, Repr

/-- The loop of `recv_header_line`: `room` is the number of bytes the line may still have, and `name` is set
where a `:` was found. -/
def headerLineLoop : Nat → ScrcConnection → Nat → Option Nat →
    Except Fault (ScrcConnection × Except UInt32 HeaderLine)
  | 0, conn, _, _ => return (conn, .error scrcHeaderTooLarge)
  | room + 1, conn, start, name => do
      match ← conn.recvBlock 1 with
      | (conn, .error ret) => return (conn, .error ret)
      | (conn, .ok p) =>
          if conn.rbuf p = 58 then
            let (rbuf, src) ← trim (Function.update conn.rbuf p 0) start
            headerLineLoop room { conn with rbuf } (p + 1) (some src)
          else if conn.rbuf p = 10 then
            let (rbuf, src) ← trim (Function.update conn.rbuf p 0) start
            match name with
            | some name => return ({ conn with rbuf }, .ok ⟨name, some src⟩)
            | none => return ({ conn with rbuf }, .ok ⟨src, none⟩)
          else headerLineLoop room conn start name

/-- `recv_header_line`. -/
def recvHeaderLine (conn : ScrcConnection) :
    Except Fault (ScrcConnection × Except UInt32 HeaderLine) := do
  match ← conn.recvBlock 1 with
  | (conn, .error ret) => return (conn, .error ret)
  | (conn, .ok start) =>
      if conn.rbuf start = 58 ∨ conn.rbuf start = 10 then return (conn, .error scrcHeaderError)
      else headerLineLoop (headerMax - 2) conn start none

/-- What `recv_header` does with a line: it returns a status, or goes on with a value of `conn->body`. -/
def headerStep (name : List UInt8) (value : Option (List UInt8)) (body : Bool) :
    Except UInt32 Bool :=
  if name = [] then .error scrcProtocolError
  else if name = ascii "$$" then .error scrcOk
  else if name = ascii "Status" then
    match value with
    | none => .error scrcHeaderError
    | some value =>
        match strtol value with
        | none => .error scrcOutOfRange
        | some (status, rest) =>
            if rest ≠ [] then .error scrcProtocolError
            else if status ≠ 0 then .error (status % 2 ^ 32).toNat.toUInt32
            else .ok body
  else if name = ascii "Body" then
    match value with
    | none => .error scrcHeaderError
    | some value =>
        if value = ascii "Yes" then .ok true
        else if value = ascii "No" then .ok body
        else .error scrcProtocolError
  else .ok body

/-- The value is read for the headers that have a meaning. -/
def readValue (rbuf : Nat → UInt8) (name : List UInt8) (value : Option Nat) :
    Except Fault (Option (List UInt8)) :=
  match value with
  | none => return none
  | some p =>
      if name = ascii "Status" ∨ name = ascii "Body" then do
        let s ← cString rbuf p
        return some s
      else return none

/-- The bytes that can still be read. -/
def left (conn : ScrcConnection) : Nat := conn.rlen - conn.rpos + conn.sockfd.arriving.length

/-- The loop of `recv_header`. -/
def headerLoop : Nat → ScrcConnection → Except Fault (ScrcConnection × UInt32)
  | 0, _ => .error .diverges
  | fuel + 1, conn => do
      match ← conn.recvHeaderLine with
      | (conn, .error ret) => return (conn, ret)
      | (conn, .ok hl) =>
          let name ← cString conn.rbuf hl.name
          let value ← readValue conn.rbuf name hl.value
          match headerStep name value conn.body with
          | .error ret => return (conn, ret)
          | .ok body => headerLoop fuel { conn with body }

/-- `recv_header`. A line has at least one byte, so that the bytes left bound the lines. -/
def recvHeader (conn : ScrcConnection) : Except Fault (ScrcConnection × UInt32) :=
  headerLoop (conn.left + 1) { conn with body := false }

/-! ### The calls -/

/-- `return conn->status = ret`. -/
def finish (conn : ScrcConnection) (ret : UInt32) : ScrcConnection × UInt32 :=
  ({ conn with status := ret }, ret)

/-- The loop of `scrc_query` over the columns. A column is copied with the size of the struct, whatever the
size of the row. -/
def columnsLoop : Nat → ScrcConnection → Except Fault (ScrcConnection × Except UInt32 Unit)
  | 0, _ => .error .diverges
  | fuel + 1, conn => do
      match ← conn.recvRow with
      | (conn, .error ret) =>
          if ret = scrcEnd then return ({ conn with status := scrcOk }, .ok ())
          else return (conn, .error ret)
      | (conn, .ok (row, _)) =>
          if fullsz < row + sizeofColumn then .error .outOfBounds
          else
            columnsLoop fuel
              { conn with columns := conn.columns ++ [slice conn.rbuf row sizeofColumn] }

/-- The part of `scrc_query` that reads the table header. -/
def recvTable (conn : ScrcConnection) : Except Fault (ScrcConnection × UInt32) := do
  match ← conn.recvCmd with
  | (conn, .error ret) => return conn.finish ret
  | (conn, .ok cmd) =>
      if cmd ≠ scrcCmdTabheader then return conn.finish (unexpectedCmd cmd)
      else
        match ← columnsLoop (conn.left + 1) conn with
        | (conn, .error ret) => return conn.finish ret
        | (conn, .ok ()) =>
            match ← conn.recvCmd with
            | (conn, .error ret) => return conn.finish ret
            | (conn, .ok cmd) =>
                if cmd ≠ scrcCmdTabdata then return conn.finish (unexpectedCmd cmd)
                else return conn.finish scrcOk

/-- `scrc_query`; `sent` is the status `send_block` has for the query. -/
def scrcQuery (conn : ScrcConnection) (query : Option (List UInt8)) (sent : UInt32) :
    Except Fault (ScrcConnection × UInt32) :=
  if conn.status ≠ scrcOk then return (conn, conn.status)
  else
    match query with
    | none => return (conn, scrcIncorrectParam)
    | some query => do
        let conn := { conn with columns := [] }
        -- `send_query` sends nothing for an empty query
        let ret := if query = [] then scrcOk else sent
        if ret ≠ scrcOk then return conn.finish ret
        else
          let (conn, ret) ← conn.recvHeader
          if ret ≠ scrcOk then return conn.finish ret
          else if conn.body = false then return (conn, ret)
          else conn.recvTable

/-- `scrc_fetch_row`: the status and what is written to `*row`, where anything is. A row is its pointer and
its size. -/
def scrcFetchRow (conn : ScrcConnection) :
    Except Fault (ScrcConnection × UInt32 × Option (Option (Nat × Nat))) :=
  if conn.body = false then return ({ conn with status := scrcOk }, scrcOk, none)
  else do
    match ← conn.recvRow with
    | (conn, .error ret) =>
        let ret := if ret = scrcEnd then scrcOk else ret
        return ({ conn with status := ret }, ret, some none)
    | (conn, .ok row) => return ({ conn with status := scrcOk }, scrcOk, some (some row))

/-- `ScrcCell`; `data` is a pointer into the buffer. -/
structure ScrcCell where
  data : Option Nat
  size : Nat
deriving DecidableEq, Repr

/-- `c->offs` and `c->size` of the bytes of a column. -/
def columnOffs (c : List UInt8) : Nat := LittleEndian.ofBytes ((c.drop 16).take 8)

def columnSize (c : List UInt8) : Nat := LittleEndian.ofBytes ((c.drop 32).take 8)

/-- `scrc_fetch_cell`: the status and what is written to `*cell`. -/
def scrcFetchCell (conn : ScrcConnection) (row : Option Nat) (n : Nat) :
    ScrcConnection × UInt32 × Option ScrcCell :=
  match row with
  | none => ({ conn with status := scrcIncorrectParam }, scrcIncorrectParam, none)
  | some row =>
      match conn.columns[n]? with
      | none => ({ conn with status := scrcOutOfRange }, scrcOutOfRange, some ⟨none, 0⟩)
      | some c =>
          let cell : ScrcCell := ⟨some (row + columnOffs c), columnSize c⟩
          ({ conn with status := scrcOk }, scrcOk, some cell)

end ScrcConnection

/-! ### A client -/

/-- A connection and the variable its client fetches rows into. -/
structure Client where
  conn : ScrcConnection
  row : Option Nat

inductive Client.Call where
  | query (query : Option (List UInt8)) (sent : UInt32)
  | fetchRow
  | fetchCell (n : Nat)
deriving DecidableEq, Repr

/-- What a call returns: its status, the columns after a query, the bytes of a row, and a cell as its offset
in the row and its size. -/
structure Client.Reply where
  status : UInt32
  columns : List (List UInt8)
  row : Option (Option (List UInt8))
  cell : Option (Option Nat × Nat)
deriving DecidableEq, Repr

def Client.step (c : Client) : Client.Call → Except Fault (Client × Client.Reply)
  | .query query sent => do
      let (conn, status) ← c.conn.scrcQuery query sent
      return ({ c with conn }, ⟨status, conn.columns, none, none⟩)
  | .fetchRow => do
      let (conn, status, row) ← c.conn.scrcFetchRow
      let bytes := row.map (Option.map fun (p, size) => slice conn.rbuf p size)
      let row := match row with
        | none => c.row
        | some row => row.map Prod.fst
      return (⟨conn, row⟩, ⟨status, conn.columns, bytes, none⟩)
  | .fetchCell n =>
      let (conn, status, cell) := c.conn.scrcFetchCell c.row n
      let cell := cell.map fun cell => (cell.data.map fun p => p - c.row.getD 0, cell.size)
      return ({ c with conn }, ⟨status, conn.columns, none, cell⟩)

/-- A connection that has received nothing: `rbuf` comes from `malloc`. -/
def ScrcConnection.fresh (rbuf : Nat → UInt8) (outcomes : List Transfer) (stream : List UInt8) :
    ScrcConnection where
  status := scrcOk
  columns := []
  rbuf := rbuf
  rlen := 0
  rpos := 0
  body := false
  sockfd := ⟨outcomes, stream, []⟩

end Scroller

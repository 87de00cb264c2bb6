import Scroller.Proof.HeaderStrings

/-!
# Decoding without a buffer

What a client reads off a stream of bytes, with nothing said about how the bytes arrive or where they lie: the
blocks, commands, rows and header lines of the protocol and the calls of the client library over them.
-/

namespace Scroller

open ScrcConnection (unexpectedCmd headerStep columnOffs columnSize)

/-- What the client library knows, and what is left of the stream. `fetched` says that the variable for the row
points at one. -/
structure Decoder where
  status : UInt32
  columns : List (List UInt8)
  body : Bool
  stream : List UInt8
  fetched : Bool

namespace Decoder

/-- A block of `n` bytes and the rest of the stream. -/
def block (n : Nat) (s : List UInt8) : Except UInt32 (List UInt8) × List UInt8 :=
  if bufsz < n then (.error scrcBufferOverflow, s)
  else if s.length < n then (.error scrcConnectionClosed, s)
  else (.ok (s.take n), s.drop n)

def cmd (s : List UInt8) : Except UInt32 UInt32 × List UInt8 :=
  match block sizeofScrcCmd s with
  | (.error ret, s) => (.error ret, s)
  | (.ok bytes, s) => (.ok (LittleEndian.ofBytes bytes).toUInt32, s)

def row (s : List UInt8) : Except UInt32 (List UInt8) × List UInt8 :=
  let (ret, s) := cmd s
  let cmd := ret.toOption.getD 0
  if cmd = scrcCmdEnd then (.error scrcEnd, s)
  else if cmd ≠ scrcCmdRow then (.error (unexpectedCmd cmd), s)
  else
    match block sizeofSizeT s with
    | (.error ret, s) => (.error ret, s)
    | (.ok bytes, s) => block (LittleEndian.ofBytes bytes) s

/-- A header line behind the characters `cur`; `name` is set behind a `:`. -/
def lineLoop : Nat → List UInt8 → List UInt8 → Option (List UInt8) →
    Except UInt32 (List UInt8 × Option (List UInt8)) × List UInt8
  | 0, s, _, _ => (.error scrcHeaderTooLarge, s)
  | _ + 1, [], _, _ => (.error scrcConnectionClosed, [])
  | room + 1, b :: s, cur, name =>
      if b = 58 then lineLoop room s [] (some (trimmed cur))
      else if b = 10 then
        match name with
        | some name => (.ok (name, some (trimmed cur)), s)
        | none => (.ok (trimmed cur, none), s)
      else lineLoop room s (cur ++ [b]) name

def line : List UInt8 → Except UInt32 (List UInt8 × Option (List UInt8)) × List UInt8
  | [] => (.error scrcConnectionClosed, [])
  | b :: s =>
      if b = 58 ∨ b = 10 then (.error scrcHeaderError, s) else lineLoop (headerMax - 2) s [b] none

/-- The lines of a header: its status, whether there is a body, and the rest of the stream. -/
def headerLoop : Nat → Bool → List UInt8 → UInt32 × Bool × List UInt8
  | 0, body, s => (scrcConnectionClosed, body, s)
  | fuel + 1, body, s =>
      match line s with
      | (.error ret, s) => (ret, body, s)
      | (.ok (name, value), s) =>
          match headerStep name value body with
          | .error ret => (ret, body, s)
          | .ok body => headerLoop fuel body s

def header (s : List UInt8) : UInt32 × Bool × List UInt8 := headerLoop (s.length + 1) false s

/-- The columns up to their end, behind those there are. -/
def columnsLoop : Nat → List (List UInt8) → List UInt8 →
    Except UInt32 Unit × List (List UInt8) × List UInt8
  | 0, columns, s => (.error scrcConnectionClosed, columns, s)
  | fuel + 1, columns, s =>
      match row s with
      | (.error ret, s) => (if ret = scrcEnd then .ok () else .error ret, columns, s)
      | (.ok bytes, s) => columnsLoop fuel (columns ++ [bytes.take sizeofColumn]) s

def finish (d : Decoder) (ret : UInt32) : Decoder × UInt32 := ({ d with status := ret }, ret)

def table (d : Decoder) : Decoder × UInt32 :=
  match cmd d.stream with
  | (.error ret, stream) => { d with stream }.finish ret
  | (.ok c, stream) =>
      if c ≠ scrcCmdTabheader then { d with stream }.finish (unexpectedCmd c)
      else
        match columnsLoop (stream.length + 1) d.columns stream with
        | (.error ret, columns, stream) => { d with columns, stream }.finish ret
        | (.ok (), columns, stream) =>
            match cmd stream with
            | (.error ret, stream) => { d with columns, stream }.finish ret
            | (.ok c, stream) =>
                if c ≠ scrcCmdTabdata then { d with columns, stream }.finish (unexpectedCmd c)
                else { d with columns, stream }.finish scrcOk

def query (d : Decoder) (query : Option (List UInt8)) (sent : UInt32) : Decoder × UInt32 :=
  if d.status ≠ scrcOk then (d, d.status)
  else
    match query with
    | none => (d, scrcIncorrectParam)
    | some query =>
        let d := { d with columns := [] }
        let ret := if query = [] then scrcOk else sent
        if ret ≠ scrcOk then d.finish ret
        else
          let (ret, body, stream) := header d.stream
          let d := { d with body, stream }
          if ret ≠ scrcOk then d.finish ret
          else if body = false then (d, ret)
          else d.table

def fetchRow (d : Decoder) : Decoder × UInt32 × Option (Option (List UInt8)) :=
  if d.body = false then ({ d with status := scrcOk }, scrcOk, none)
  else
    match row d.stream with
    | (.error ret, stream) =>
        let ret := if ret = scrcEnd then scrcOk else ret
        ({ d with status := ret, stream, fetched := false }, ret, some none)
    | (.ok bytes, stream) =>
        ({ d with status := scrcOk, stream, fetched := true }, scrcOk, some (some bytes))

/-- A cell is its offset in the row and its size. -/
def fetchCell (d : Decoder) (n : Nat) : Decoder × UInt32 × Option (Option Nat × Nat) :=
  if d.fetched = false then ({ d with status := scrcIncorrectParam }, scrcIncorrectParam, none)
  else
    match d.columns[n]? with
    | none => ({ d with status := scrcOutOfRange }, scrcOutOfRange, some (none, 0))
    | some c => ({ d with status := scrcOk }, scrcOk, some (some (columnOffs c), columnSize c))

def step (d : Decoder) : Client.Call → Decoder × Client.Reply
  | .query query sent =>
      let (d, status) := d.query query sent
      (d, ⟨status, d.columns, none, none⟩)
  | .fetchRow =>
      let (d, status, row) := d.fetchRow
      (d, ⟨status, d.columns, row, none⟩)
  | .fetchCell n =>
      let (d, status, cell) := d.fetchCell n
      (d, ⟨status, d.columns, none, cell⟩)

/-- The calls of a client, one after the other. -/
def run (d : Decoder) : List Client.Call → Decoder × List (Client.Call × Client.Reply)
  | [] => (d, [])
  | call :: calls =>
      let (d, reply) := d.step call
      let (d, hist) := run d calls
      (d, (call, reply) :: hist)

end Decoder

end Scroller

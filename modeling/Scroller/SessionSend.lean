import Scroller.Database
import Scroller.Lib.ByteMemory
import Scroller.Socket

/-!
# Sending to the client

`session_send` and `session_flush` of `src/scrs/session.c`: what the server sends is collected in a buffer,
and full blocks are written to the socket.
-/

namespace Scroller

open ByteMemory

/-- `SENDBUFSZ`. -/
def sendbufsz : Nat := 4096

theorem sendbufsz_pos : 0 < sendbufsz := by decide

/-- The send buffer of a session and the socket behind `client_fd`. -/
structure SendBuffer where
  sendBuf : Nat → UInt8
  sendBufIdx : Nat
  client : Outbound
  idx_lt : sendBufIdx < sendbufsz

/-- The loop of `send_block`. -/
def sendBlockLoop (written : List UInt8) : List Transfer → List UInt8 → Outbound × ScrcStatus
  | outcomes, [] => (⟨outcomes, written⟩, .ok)
  | [], data => (⟨[], written ++ data⟩, .ok)
  | .interrupted :: outcomes, data => sendBlockLoop written outcomes data
  | .failed :: outcomes, _ => (⟨outcomes, written⟩, .sendError)
  | .closed :: outcomes, _ => (⟨outcomes, written⟩, .sessionClosed)
  | .moved more :: outcomes, data =>
      sendBlockLoop (written ++ data.take (more + 1)) outcomes (data.drop (more + 1))

/-- `send_block`. -/
def sendBlock (client : Outbound) (data : List UInt8) : Outbound × ScrcStatus :=
  sendBlockLoop client.written client.outcomes data

namespace SendBuffer

/-- `session_send`. The data behind `buf` is cut into a head that fills the buffer, whole blocks and a tail;
`head`, `remaining`, `fullBlocks` and `tail` are the locals of the source. -/
def sessionSend (s : SendBuffer) (buf : List UInt8) : SendBuffer × ScrcStatus :=
  if hfull : sendbufsz ≤ s.sendBufIdx + buf.length then
    let head := sendbufsz - s.sendBufIdx
    let remaining := buf.length - head
    let fullBlocks := remaining / sendbufsz
    let tail := remaining % sendbufsz
    let blockBytes := fullBlocks * sendbufsz
    let sendBuf := write s.sendBuf s.sendBufIdx (buf.take head)
    -- the head is copied, sent and skipped where the buffer has some data already, and only there
    let (s, buf, status) :=
      if 0 < s.sendBufIdx then
        let (client, status) := sendBlock s.client (slice sendBuf 0 sendbufsz)
        ({ s with sendBuf, client }, buf.drop head, status)
      else (s, buf, .ok)
    if status ≠ .ok then (s, status)
    else
      -- without a full block nothing is sent here, and `buf` does not move
      let (client, status) :=
        if fullBlocks ≠ 0 then sendBlock s.client (buf.take blockBytes) else (s.client, .ok)
      if status ≠ .ok then ({ s with client }, status)
      else
        ({ s with
            sendBuf := write s.sendBuf 0 ((buf.drop blockBytes).take tail)
            sendBufIdx := tail
            client
            idx_lt := Nat.mod_lt _ sendbufsz_pos }, .ok)
  else
    ({ s with
        sendBuf := write s.sendBuf s.sendBufIdx buf
        sendBufIdx := s.sendBufIdx + buf.length
        idx_lt := Nat.lt_of_not_le hfull }, .ok)

/-- `session_flush`. -/
def sessionFlush (s : SendBuffer) : SendBuffer × ScrcStatus :=
  if s.sendBufIdx ≠ 0 then
    let (client, status) := sendBlock s.client (slice s.sendBuf 0 s.sendBufIdx)
    if status ≠ .ok then ({ s with client }, status)
    else ({ s with client, sendBufIdx := 0, idx_lt := sendbufsz_pos }, .ok)
  else (s, .ok)

/-- `session_send` of one argument after the other. -/
def sends (s : SendBuffer) : List (List UInt8) → SendBuffer × List ScrcStatus
  | [] => (s, [])
  | buf :: bufs =>
      let (s, status) := s.sessionSend buf
      let (s, statuses) := sends s bufs
      (s, status :: statuses)

/-- A session that has sent nothing yet. -/
def fresh (sendBuf : Nat → UInt8) (outcomes : List Transfer) : SendBuffer where
  sendBuf := sendBuf
  sendBufIdx := 0
  client := ⟨outcomes, []⟩
  idx_lt := sendbufsz_pos

end SendBuffer

end Scroller

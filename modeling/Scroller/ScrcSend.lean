import Scroller.Scrc

/-!
# Requests

`send_header`, `send_query` and `send_block` of `lib/core/src/scrc.c`. A request is formatted into a buffer on the
stack; behind the buffer the stack goes on.
-/

namespace Scroller

open ByteMemory

/-- `INT_MAX`. -/
def intMax : Nat := 2 ^ 31 - 1

def scrcSendError : UInt32 := 10

/-- A string, without the null byte that ends it. -/
structure CStr where
  bytes : List UInt8
  nul : 0 ∉ bytes

namespace ScrcConnection

/-- What `snprintf` returns: the length of the whole text, or `-1` where it is no `int`. -/
def snprintfLength (text : List UInt8) : Int := if text.length ≤ intMax then text.length else -1

/-- `len += snprintf(buffer + len, sizeof(buffer) - len, …)` for a text that the format makes. -/
def appendText (buffer : Nat → UInt8) (len : Int) (text : List UInt8) : Except Fault ((Nat → UInt8) × Int) :=
  -- the difference is a `size_t`
  let size := (((bufsz : Int) - len) % 2 ^ 64).toNat
  let cells := if size = 0 then [] else text.take (size - 1) ++ [0]
  if cells ≠ [] ∧ ¬ (0 ≤ len ∧ len + cells.length ≤ bufsz) then .error .outOfBounds
  else if (intMax : Int) < len + snprintfLength text then .error .signedOverflow
  else return (write buffer len.toNat cells, len + snprintfLength text)

/-- The loop of `send_block`. A `send` that returns `0` is called again. -/
def sendBlockLoop (written : List UInt8) : List Transfer → List UInt8 → Outbound × UInt32
  | outcomes, [] => (⟨outcomes, written⟩, scrcOk)
  | [], data => (⟨[], written ++ data⟩, scrcOk)
  | .interrupted :: outcomes, data => sendBlockLoop written outcomes data
  | .closed :: outcomes, data => sendBlockLoop written outcomes data
  | .failed :: outcomes, _ => (⟨outcomes, written⟩, scrcSendError)
  | .moved more :: outcomes, data => sendBlockLoop (written ++ data.take (more + 1)) outcomes (data.drop (more + 1))

/-- `send_block` with the bytes at `data`; nothing is sent where `(ssize_t)len` is negative. -/
def sendBlock (sockfd : Outbound) (data : Nat → UInt8) (len : Int) : Outbound × UInt32 :=
  sendBlockLoop sockfd.written sockfd.outcomes (slice data 0 len.toNat)

/-- `"user: %s\n"`. -/
def userLine (user : CStr) : List UInt8 := ascii "user: " ++ user.bytes ++ [10]

/-- `"catalog: %s\n"`. -/
def catalogLine (catalog : CStr) : List UInt8 := ascii "catalog: " ++ catalog.bytes ++ [10]

/-- `"%s\n$$\n"`. -/
def queryText (query : CStr) : List UInt8 := query.bytes ++ ascii "\n$$\n"

/-- `send_header`. -/
def sendHeader (sockfd : Outbound) (header : Nat → UInt8) (user : CStr) (catalog : Option CStr) :
    Except Fault (Outbound × UInt32) := do
  let (header, len) ← appendText header 0 (userLine user)
  let (header, len) ←
    match catalog with
    | some catalog => appendText header len (catalogLine catalog)
    | none => pure (header, len)
  let (header, len) ← appendText header len (ascii "$$\n")
  return sendBlock sockfd header len

/-- `send_query`. -/
def sendQuery (sockfd : Outbound) (buffer : Nat → UInt8) (query : CStr) : Except Fault (Outbound × UInt32) :=
  if query.bytes = [] then return (sockfd, scrcOk)
  else do
    let (buffer, len) ← appendText buffer 0 (queryText query)
    return sendBlock sockfd buffer len

end ScrcConnection

end Scroller

import Mathlib.Data.List.Basic

/-!
# Sockets

A stream socket moves bytes in pieces that neither side chooses. What its calls do is a list of outcomes
here: any number of calls may be interrupted, fail, find the connection closed or move a part of what was
asked for. Behind the list every call moves as much as it can, so that every run which makes finitely many
calls has its list.
-/

namespace Scroller

/-- How one `send` or `recv` ends. -/
inductive Transfer where
  /-- `EINTR`. -/
  | interrupted
  /-- Any other error. -/
  | failed
  /-- The call returns `0`. -/
  | closed
  /-- The call moves `more + 1` bytes, or as many as it can if these are fewer. -/
  | moved (more : Nat)
deriving DecidableEq, Repr

/-- The call moves something, now or when it is repeated. -/
def Transfer.Succeeds : Transfer → Prop
  | .interrupted | .moved _ => True
  | .failed | .closed => False

instance : (t : Transfer) → Decidable t.Succeeds
  | .interrupted | .moved _ => inferInstanceAs (Decidable True)
  | .failed | .closed => inferInstanceAs (Decidable False)

/-- A socket that is written to. -/
structure Outbound where
  outcomes : List Transfer
  written : List UInt8

/-- A socket that is read from: `arriving` is what is left of the stream, `asked` are the sizes that `recv`
was called with. -/
structure Inbound where
  outcomes : List Transfer
  arriving : List UInt8
  asked : List Nat

end Scroller

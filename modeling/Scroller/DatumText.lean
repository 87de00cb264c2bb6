import Scroller.DatumOps
import Scroller.Scrc

/-!
# Data as text

`datum_sdup` of `lib/core/src/type.c`, for memory that could be allocated. Every byte of the buffer is written
before it is read.
-/

namespace Scroller

/-- The string in a buffer: the bytes in front of the first terminator. -/
def bufferString (buffer : List UInt8) : List UInt8 := buffer.takeWhile (· ≠ 0)

/-- The digits that an `int64_t` can have. -/
def maxDigits : Nat := 19

/-- The loop `while (v /= 10) ++cnt`. -/
def countDigits : Nat → Int64 → Nat → Except Fault Nat
  | 0, _, _ => .error .diverges
  | fuel + 1, v, cnt => if v / 10 = 0 then .ok cnt else countDigits fuel (v / 10) (cnt + 1)

/-- The loop `while (cnt--)`, which fills the buffer from its end. -/
def putDigits : Nat → Int64 → List UInt8 → List UInt8
  | 0, _, ret => ret
  | cnt + 1, v, ret => putDigits cnt (v / 10) (ret.set cnt (48 + v % 10).toUInt64.toUInt8)

/-- `datum_sdup`. -/
def datumSdup (src : Datum) : Except Fault (List UInt8) :=
  match src.type with
  | .unknown => return ascii "<Unknown type>"
  | .smallint | .integer | .bigint => do
      let v := (toBaseType src).integer
      let cnt ← countDigits maxDigits v 1
      let ret := (List.replicate (cnt + 1) 0).set cnt 0
      return bufferString (putDigits cnt v ret)
  | .char => return bufferString ((toBaseType src).character ++ [0])
  | .varchar => return ascii "<varchar type not implemented>"
  | .name => return ascii "<Not implemented type>"

end Scroller

import Mathlib.Data.UInt

/-!
# Global page ids

`lib/core/src/gid.h`. The low bits of an id name a file, the high bits a page of it.
-/

namespace Scroller

def gidFileidbits : Nat := 40

structure Gid where
  full : UInt64
deriving DecidableEq, Repr

namespace Gid

/-- `GID_UNDEF`. -/
def undef : Gid := ⟨0⟩

/-- The bit field `parts.file_id`. -/
def fileId (gid : Gid) : UInt64 := gid.full % 0x10000000000

/-- The bit field `parts.page`. -/
def page (gid : Gid) : UInt64 := gid.full / 0x10000000000

/-- `(Gid){ .parts = { .file_id = fileId, .page = page } }`: both are cut to their fields. -/
def ofParts (fileId page : UInt64) : Gid :=
  ⟨page % 0x1000000 * 0x10000000000 + fileId % 0x10000000000⟩

/-- The id as a cache key. -/
def key (gid : Gid) : Int64 := gid.full.toInt64

/-- Byte `i` of the id in memory. -/
def byte (gid : Gid) (i : Nat) : UInt8 := (gid.full.toNat / 256 ^ i).toUInt8

end Gid

def gidOctetbits : Nat := 8

def char2hex (c : UInt8) : UInt8 :=
  let c := c &&& 0xf
  if c > 9 then 65 + c - 10 else 48 + c

/-- `gid2hex`: the name of the file, without its terminator. -/
def gid2hex (gid : Gid) : List UInt8 :=
  (List.range (gidFileidbits / gidOctetbits)).reverse.flatMap fun i =>
    [char2hex (gid.byte i >>> 4), char2hex (gid.byte i)]

end Scroller

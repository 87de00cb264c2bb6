import Scroller.Pagecache

/-!
# Transaction flags

`lib/core/src/tran.c`. One page holds the commit flags of the transactions: eight bytes with the id its
bits start from, then one bit for each id. A flag is addressed from the frame of the page without a check
against the end of the page, so the frames are bytes in one row here.
-/

namespace Scroller

/-- The bytes of a page by their offsets. -/
abbrev Page := Nat → UInt8

namespace Pagecache

variable {W : Type}

/-- The byte at an address counted from `g_pages`. -/
def loadByte (pagesz : Nat) (s : Pagecache W Page) (addr : Int) : Except Fault UInt8 :=
  if 0 ≤ addr ∧ addr.toNat < s.stack.listsz * pagesz then
    .ok (s.pages (addr.toNat / pagesz) (addr.toNat % pagesz))
  else .error .outOfBounds

def storeByte (pagesz : Nat) (s : Pagecache W Page) (addr : Int) (byte : UInt8) :
    Except Fault (Pagecache W Page) :=
  if 0 ≤ addr ∧ addr.toNat < s.stack.listsz * pagesz then
    .ok { s with
      pages := Function.update s.pages (addr.toNat / pagesz)
        (Function.update (s.pages (addr.toNat / pagesz)) (addr.toNat % pagesz) byte) }
  else .error .outOfBounds

end Pagecache

inductive TranFlag where
  | aborted
  | commited
deriving DecidableEq, Repr

namespace TranPage

/-- `tid_start`, the first eight bytes. -/
def tidStart (page : Page) : UInt64 :=
  (List.range 8).foldr (fun i n => n * 256 + (page i).toUInt64) 0

/-- The line `tid -= page->tid_start`. -/
def offset (page : Page) (tid : Int64) : Int64 := tid - (tidStart page).toInt64

/-- The address of `page->datum[i]` for the page in frame `f`. -/
def datumAddr (pagesz f : Nat) (i : Int64) : Int := f * pagesz + 8 + i.toInt

/-- The right operand of a shift. -/
def shiftAmount (k : Int64) : Except Fault UInt8 :=
  if 0 ≤ k then .ok k.toUInt64.toUInt8 else .error .negativeShift

/-- `(byte >> k) & 1` as a flag. -/
def getBit (byte k : UInt8) : TranFlag := if (byte >>> k) &&& 1 = 1 then .commited else .aborted

/-- The switch of `tran_flag_put`. -/
def putBit (byte k : UInt8) : TranFlag → UInt8
  | .aborted => byte &&& ~~~(1 <<< k)
  | .commited => byte ||| (1 <<< k)

section

variable {W : Type} (build : Build)

/-- The lines of `tran_flag_get` behind the page pointer, for the page in frame `f`. -/
def readFlag (pagesz : Nat) (s : Pagecache W Page) (f : Nat) (tid : Int64) : Except Fault TranFlag := do
  let tid := offset (s.pages f) tid
  build.assert (0 ≤ tid)
  let byte ← s.loadByte pagesz (datumAddr pagesz f (tid / 8))
  let k ← shiftAmount (tid % 8)
  return getBit byte k

/-- The lines of `tran_flag_put` between the page pointer and the flush. -/
def writeFlag (pagesz : Nat) (s : Pagecache W Page) (f : Nat) (tid : Int64) (flag : TranFlag) :
    Except Fault (Pagecache W Page) := do
  let tid := offset (s.pages f) tid
  build.assert (0 < tid)
  let byte ← s.loadByte pagesz (datumAddr pagesz f (tid / 8))
  let k ← shiftAmount (tid % 8)
  s.storeByte pagesz (datumAddr pagesz f (tid / 8)) (putBit byte k flag)

variable (os : Os W Page) (tran : Gid)

/-- `tran_flag_get` with the page `g_server.system.tran`. -/
def tranFlagGet (s : Pagecache W Page) (tid : Int64) : Except Fault (Pagecache W Page × TranFlag) := do
  let (s, page) ← s.putPage build os tran
  build.assert (page ≠ none)
  match page with
  | none => .error .nullPointer
  | some f => do
      let flag ← readFlag build os.pagesz s f tid
      return (s, flag)

/-- `tran_flag_put`. -/
def tranFlagPut (s : Pagecache W Page) (tid : Int64) (flag : TranFlag) :
    Except Fault (Pagecache W Page) := do
  let (s, page) ← s.putPage build os tran
  build.assert (page ≠ none)
  match page with
  | none => .error .nullPointer
  | some f => do
      let s ← writeFlag build os.pagesz s f tid flag
      let (s, _) ← s.flush build os tran
      return s

end

end TranPage

end Scroller

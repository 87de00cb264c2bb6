import Scroller.Lib.LittleEndian
import Scroller.Memory

/-!
# Bump contexts in memory

The bump contexts of `lib/core/src/memory.c` with the bytes of their region and the arithmetic of `size_t`.
Offsets count from the start of the region; in front of every block lies a header with the address of the
context and the size of the block. The fields of the context itself are those of the record, its magic number
never changes.
-/

namespace Scroller

/-- `align_max` on `size_t`. -/
def alignMaxWord (sz : Nat) : Nat := (sz + 15) % 2 ^ 64 / 16 * 16

/-- A region with the address it is mapped to. -/
structure BumpRegion where
  address : UInt64
  size : UInt64
  current : Nat
  bytes : Nat → UInt8

namespace BumpRegion

/-- `bump_context_create`, for a region that could be mapped with these bytes. -/
def create (build : Build) (address size : UInt64) (bytes : Nat → UInt8) : Option BumpRegion :=
  if size = 0 then none else some ⟨address, size, BumpContext.base build, bytes⟩

/-- A use of `n` bytes, which have to lie in the region. -/
def inside (m : BumpRegion) (p n : Nat) : Except Fault Unit :=
  if p + n ≤ m.size.toNat then .ok () else .error .outOfBounds

/-- The bytes of a header. -/
def headerBytes (address size : Nat) : List UInt8 :=
  LittleEndian.toBytes 8 address ++ LittleEndian.toBytes 8 size

/-- `header->context` of a block. -/
def headerContext (m : BumpRegion) (p : Nat) : Nat :=
  LittleEndian.load m.bytes (p - sizeofBumpContextHeader) 8

/-- `header->size` of a block. -/
def headerSize (m : BumpRegion) (p : Nat) : Nat :=
  LittleEndian.load m.bytes (p - sizeofBumpContextHeader + 8) 8

/-- `bump_context_alloc`; `none` is `NULL`. -/
def alloc (build : Build) (m : BumpRegion) (sz : Nat) : Except Fault (BumpRegion × Option Nat) :=
  if sz = 0 then return (m, none)
  else do
    let sz := alignMaxWord sz
    let totalsz := (sz + sizeofBumpContextHeader) % 2 ^ 64
    build.assert (sz ≤ 2 ^ 64 - 1 - sizeofBumpContextHeader)
    if (m.size.toNat + 2 ^ 64 - m.current) % 2 ^ 64 < totalsz then return (m, none)
    else do
      m.inside m.current sizeofBumpContextHeader
      let bytes := ByteMemory.write m.bytes m.current (headerBytes m.address.toNat sz)
      return ({ m with bytes, current := (m.current + totalsz) % 2 ^ 64 },
        some (m.current + sizeofBumpContextHeader))

/-- `header->context` is followed to this context only. -/
def ownContext (m : BumpRegion) (p : Nat) : Except Fault Unit :=
  if m.headerContext p = m.address.toNat then .ok () else .error .outOfBounds

/-- The rewinding of the mark to a block that is the tail. -/
def rewind (m : BumpRegion) (p : Nat) : BumpRegion :=
  if (p + m.headerSize p) % 2 ^ 64 = m.current then { m with current := p - sizeofBumpContextHeader }
  else m

/-- `bump_context_free`. -/
def free (build : Build) (m : BumpRegion) (p : Option Nat) : Except Fault BumpRegion :=
  match p with
  | none => return m
  | some p => do
      m.ownContext p
      build.assert
        (0 < m.headerSize p ∧ (m.headerSize p + sizeofBumpContextHeader) % 2 ^ 64 ≤ m.size.toNat)
      build.assert (p < m.current)
      return m.rewind p

/-- `memcpy` inside of the region. -/
def memcpy (m : BumpRegion) (dst src n : Nat) : Except Fault BumpRegion := do
  m.inside dst n
  m.inside src n
  return { m with bytes := ByteMemory.move m.bytes dst src n }

/-- `bump_context_realloc`. -/
def realloc (build : Build) (m : BumpRegion) (p : Option Nat) (sz : Nat) :
    Except Fault (BumpRegion × Option Nat) :=
  match p with
  | none => m.alloc build sz
  | some p => do
      m.ownContext p
      build.assert
        (0 < m.headerSize p ∧ (m.headerSize p + sizeofBumpContextHeader) % 2 ^ 64 ≤ m.size.toNat)
      if sz = 0 then do
        let m ← m.free build (some p)
        return (m, none)
      else do
        build.assert (p < m.current)
        let sz := alignMaxWord sz
        build.assert (sz ≤ 2 ^ 64 - 1 - sizeofBumpContextHeader)
        if m.headerSize p < sz then do
          let (m, np) ← (m.rewind p).alloc build sz
          match np with
          | none => return (m, none)
          | some np =>
              if np = p then return (m, some np)
              else do
                let m ← m.memcpy np p (m.headerSize p)
                return (m, some np)
        else return (m, some p)

end BumpRegion

/-! ### Runs -/

/-- The calls on a context, and an owner who writes a byte of a block. -/
inductive BumpOp where
  | alloc (sz : Nat)
  | realloc (p : Option Nat) (sz : Nat)
  | free (p : Option Nat)
  | store (p i : Nat) (b : UInt8)
deriving DecidableEq, Repr

/-- A context with its live blocks, each with the size that was requested last. -/
structure BumpRun where
  mem : BumpRegion
  live : List (Nat × Nat)

namespace BumpRun

/-- A block that was returned is live. -/
def gain (live : List (Nat × Nat)) (r : Option Nat) (sz : Nat) : List (Nat × Nat) :=
  match r with
  | none => live
  | some q => (q, sz) :: live

/-- A block that was freed or moved is not. -/
def lose (live : List (Nat × Nat)) (p : Nat) : List (Nat × Nat) := live.filter fun b => b.1 ≠ p

/-- One call with what it returns. A `realloc` that fails leaves its block alive. -/
def step (build : Build) (s : BumpRun) (op : BumpOp) : Except Fault (BumpRun × Option Nat) :=
  match op with
  | .alloc sz => do
      let (mem, r) ← s.mem.alloc build sz
      return (⟨mem, gain s.live r sz⟩, r)
  | .realloc none sz => do
      let (mem, r) ← s.mem.realloc build none sz
      return (⟨mem, gain s.live r sz⟩, r)
  | .realloc (some p) sz => do
      let (mem, r) ← s.mem.realloc build (some p) sz
      let live :=
        match r with
        | some q => (q, sz) :: lose s.live p
        | none => if sz = 0 then lose s.live p else s.live
      return (⟨mem, live⟩, r)
  | .free none => do
      let mem ← s.mem.free build none
      return (⟨mem, s.live⟩, none)
  | .free (some p) => do
      let mem ← s.mem.free build (some p)
      return (⟨mem, lose s.live p⟩, none)
  | .store p i b =>
      return (⟨{ s.mem with bytes := ByteMemory.write s.mem.bytes (p + i) [b] }, s.live⟩, none)

end BumpRun

end Scroller

import Scroller.BumpRegion
import Scroller.Lib.Machine

/-!
# Linear contexts

The linear contexts of `lib/core/src/memory.c`: bump contexts whose blocks have no headers. Both kinds of contexts
are created and reset alike.
-/

namespace Scroller

namespace BumpRegion

/-- `linear_context_create`, for a region that could be mapped with these bytes. -/
def linearCreate (build : Build) (address size : UInt64) (bytes : Nat → UInt8) : Option BumpRegion :=
  if size = 0 then none else some ⟨address, size, BumpContext.base build, bytes⟩

/-- `linear_context_alloc`; `none` is `NULL`. -/
def linearAlloc (build : Build) (m : BumpRegion) (sz : Nat) : Except Fault (BumpRegion × Option Nat) :=
  if sz = 0 then return (m, none)
  else do
    let sz := alignMaxWord sz
    build.assert (sz ≤ 2 ^ 64 - 1)
    if (m.size.toNat + 2 ^ 64 - m.current) % 2 ^ 64 < sz then return (m, none)
    else return ({ m with current := (m.current + sz) % 2 ^ 64 }, some m.current)

/-- `bump_context_reset` of a context without children. -/
def reset (build : Build) (m : BumpRegion) : BumpRegion := { m with current := BumpContext.base build }

end BumpRegion

/-- The two kinds of contexts. -/
inductive ContextKind where
  | bump
  | linear
deriving DecidableEq, Repr

inductive ContextOp where
  | alloc (sz : UInt64)
  | reset
deriving DecidableEq, Repr

namespace ContextKind

def create (kind : ContextKind) (build : Build) (address size : UInt64) (bytes : Nat → UInt8) :
    Option BumpRegion :=
  match kind with
  | .bump => BumpRegion.create build address size bytes
  | .linear => BumpRegion.linearCreate build address size bytes

def alloc (kind : ContextKind) (build : Build) (m : BumpRegion) (sz : Nat) :
    Except Fault (BumpRegion × Option Nat) :=
  match kind with
  | .bump => m.alloc build sz
  | .linear => m.linearAlloc build sz

/-- What lies in front of every block. -/
def headerSize : ContextKind → Nat
  | .bump => sizeofBumpContextHeader
  | .linear => 0

/-- One call on a context with the block it returns. -/
def step (kind : ContextKind) (build : Build) (m : BumpRegion) :
    ContextOp → Except Fault (BumpRegion × Option Nat)
  | .alloc sz => kind.alloc build m sz.toNat
  | .reset => return (m.reset build, none)

end ContextKind

end Scroller

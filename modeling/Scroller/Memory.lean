import Scroller.Basic

/-!
# Memory contexts

The bump contexts of `lib/core/src/memory.c`: blocks lie one behind the other in a mapped region, each
behind a header with its size. An address is an offset into the region.
-/

namespace Scroller

/-- `align_max`. -/
def alignMax (sz : Nat) : Nat := (sz + 15) / 16 * 16

theorem le_alignMax (sz : Nat) : sz ≤ alignMax sz := by
  rw [alignMax]
  omega

theorem alignMax_alignMax (sz : Nat) : alignMax (alignMax sz) = alignMax sz := by
  rw [alignMax, alignMax]
  omega

theorem alignMax_mono {a b : Nat} (h : a ≤ b) : alignMax a ≤ alignMax b :=
  Nat.mul_le_mul_right 16 (Nat.div_le_div_right (Nat.add_le_add_right h 15))

def sizeofBumpContext : Build → Nat
  | .debug => 104
  | .release => 96

def sizeofBumpContextHeader : Nat := 16

structure BumpContext where
  size : Nat
  current : Nat
deriving DecidableEq, Repr

/-- A pointer to an allocated block, with the `size` of its header. -/
structure Block where
  offs : Nat
  size : Nat
deriving DecidableEq, Repr

namespace BumpContext

/-- Where the blocks of a context start. -/
def base (build : Build) : Nat := alignMax (sizeofBumpContext build)

/-- `bump_context_create`, for a region that could be mapped. -/
def create (build : Build) (size : Nat) : Option BumpContext :=
  if size = 0 then none else some ⟨size, base build⟩

/-- `bump_context_reset`. -/
def reset (build : Build) (context : BumpContext) : BumpContext :=
  { context with current := base build }

/-- `bump_context_alloc`; `none` is `NULL`. -/
def alloc (context : BumpContext) (sz : Nat) : BumpContext × Option Block :=
  if sz = 0 then (context, none)
  else
    let sz := alignMax sz
    let totalsz := sz + sizeofBumpContextHeader
    if context.size < context.current + totalsz then (context, none)
    else
      ({ context with current := context.current + totalsz },
        some ⟨context.current + sizeofBumpContextHeader, sz⟩)

theorem alloc_room {context : BumpContext} {sz : Nat} (hsz : sz ≠ 0)
    (hroom : context.current + (alignMax sz + sizeofBumpContextHeader) ≤ context.size) :
    context.alloc sz
      = ({ context with current := context.current + (alignMax sz + sizeofBumpContextHeader) },
        some ⟨context.current + sizeofBumpContextHeader, alignMax sz⟩) := by
  rw [alloc, if_neg hsz]
  exact if_neg (Nat.not_lt.mpr hroom)

theorem alloc_full {context : BumpContext} {sz : Nat}
    (hfull : context.size < context.current + (alignMax sz + sizeofBumpContextHeader)) :
    context.alloc sz = (context, none) := by
  rw [alloc]
  split
  · rfl
  · exact if_pos hfull

/-- The last line of `bump_context_free` and the rewinding in `bump_context_realloc`. -/
def rewind (context : BumpContext) (p : Block) : BumpContext :=
  if p.offs + p.size = context.current then
    { context with current := p.offs - sizeofBumpContextHeader }
  else context

/-- `bump_context_realloc`. -/
def realloc (build : Build) (context : BumpContext) (p : Option Block) (sz : Nat) :
    Except Fault (BumpContext × Option Block) :=
  match p with
  | none => return context.alloc sz
  | some p => do
      build.assert (0 < p.size ∧ p.size + sizeofBumpContextHeader ≤ context.size)
      if sz = 0 then do
        build.assert (p.offs < context.current)
        return (context.rewind p, none)
      else do
        build.assert (p.offs < context.current)
        let sz := alignMax sz
        if p.size < sz then return (context.rewind p).alloc sz
        else return (context, some p)

end BumpContext

end Scroller

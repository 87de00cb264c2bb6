import Scroller.DatumOps

/-!
# The loop of LIKE

`like` of `lib/core/src/type.c` with its indices into the two strings. Reading behind the end of a string is a
fault.
-/

namespace Scroller

/-- `s[i]`. -/
def byteAt (s : List UInt8) (i : Nat) : Except Fault UInt8 :=
  match s[i]? with
  | some c => .ok c
  | none => .error .outOfBounds

/-- The variables of `like`; without a `star` it is `SIZE_MAX`. -/
structure LikeState where
  si : Nat
  pi : Nat
  star : Option Nat
  ss : Nat
deriving DecidableEq, Repr

/-- `pi < pat_len && pattern[pi] == '%'`. -/
def atMany (pattern : List UInt8) (pi : Nat) : Except Fault Bool :=
  if pi < pattern.length then do
    let p ← byteAt pattern pi
    return p = 37
  else return false

/-- `pi < pat_len && (pattern[pi] == '_' || pattern[pi] == src[si])`. -/
def atOne (src pattern : List UInt8) (si pi : Nat) : Except Fault Bool :=
  if pi < pattern.length then do
    let p ← byteAt pattern pi
    if p = 95 then return true
    else do
      let c ← byteAt src si
      return p = c
  else return false

/-- The second loop of `like`, and what it returns. -/
def likeEnd (pattern : List UInt8) : Nat → Nat → Except Fault Bool
  | 0, _ => .error .diverges
  | fuel + 1, pi => do
      let many ← atMany pattern pi
      if many then likeEnd pattern fuel (pi + 1)
      else return pi = pattern.length

/-- The first loop of `like`. -/
def likeFrom (src pattern : List UInt8) : Nat → LikeState → Except Fault Bool
  | 0, _ => .error .diverges
  | fuel + 1, s =>
      if s.si < src.length then do
        let many ← atMany pattern s.pi
        if many then likeFrom src pattern fuel { s with star := some s.pi, pi := s.pi + 1, ss := s.si }
        else do
          let one ← atOne src pattern s.si s.pi
          if one then likeFrom src pattern fuel { s with si := s.si + 1, pi := s.pi + 1 }
          else
            match s.star with
            | some star =>
                likeFrom src pattern fuel { s with pi := star + 1, si := s.ss + 1, ss := s.ss + 1 }
            | none => return false
      else likeEnd pattern (pattern.length + 1) s.pi

/-- `like`, with as much fuel as its first loop can need. -/
def likeIndices (src pattern : List UInt8) : Except Fault Bool :=
  likeFrom src pattern ((pattern.length + src.length + 2) * (pattern.length + 1)) ⟨0, 0, none, 0⟩

end Scroller

import Scroller.Lib.Trimming
import Scroller.Scanner
import Scroller.Scrc

/-!
# String functions in memory

The two functions `trim`, of `lib/core/src/scrc.c` and of `src/scrs/hquery.l`, and `str_unescape` in a memory that goes
on at both ends. A run keeps the addresses that it reads and writes.
-/

namespace Scroller

/-- `while (go(*p)) ++p;` with what it reads. -/
def walkUp (mem : Int → UInt8) (go : UInt8 → Bool) : Nat → Int → Option (Int × List Int)
  | 0, _ => none
  | fuel + 1, p =>
      if go (mem p) then do
        let (q, reads) ← walkUp mem go fuel (p + 1)
        return (q, p :: reads)
      else return (p, [p])

/-- `while (c != stop && go(*c)) --c;`, or `while (go(*c)) --c;` without a `stop`. -/
def walkDown (mem : Int → UInt8) (stop : Option Int) (go : UInt8 → Bool) : Nat → Int → Option (Int × List Int)
  | 0, _ => none
  | fuel + 1, c =>
      if stop = some c then return (c, [])
      else if go (mem c) then do
        let (d, reads) ← walkDown mem stop go fuel (c - 1)
        return (d, c :: reads)
      else return (c, [c])

/-- The memory behind a call of `trim`, what it returns, and the addresses it read or wrote. -/
structure TrimRun where
  mem : Int → UInt8
  ret : Int
  touched : List Int

namespace Scrc

/-- `trim` of `scrc.c`. -/
def trim (mem : Int → UInt8) (fuel : Nat) (src : Int) : Option TrimRun :=
  if mem src = 0 then return ⟨mem, src, [src]⟩
  else do
    let (first, spaces) ← walkUp mem (fun b => b ≠ 0 && isspace b) fuel src
    let (c, chars) ← walkUp mem (fun b => b ≠ 0 && b ≠ 10) fuel first
    let (last, blanks) ← walkDown mem (some first) isspace fuel (c - 1)
    return ⟨Function.update mem (last + 1) 0, first, src :: spaces ++ chars ++ blanks ++ [last + 1]⟩

end Scrc

namespace Hquery

/-- `strchr(" \t\r", b)` finds the character. -/
def isBlank (b : UInt8) : Bool := b = 32 || b = 9 || b = 13

/-- `trim` of `hquery.l`. -/
def trim (mem : Int → UInt8) (fuel : Nat) (src : Int) (len : Nat) : Option TrimRun :=
  if mem src = 0 ∨ len = 0 then return ⟨mem, src, [src]⟩
  else do
    let (first, spaces) ← walkUp mem (fun b => b ≠ 0 && isBlank b) fuel src
    let (last, blanks) ← walkDown mem none (fun b => b ≠ 0 && isBlank b) fuel (src + len - 1)
    return ⟨Function.update mem (last + 1) 0, first, src :: spaces ++ blanks ++ [last + 1]⟩

/-- The loop of `str_unescape` from the address `s` on, with the characters it writes and the addresses it reads. A
character that is not written keeps what the memory had. -/
def unescapeLoop (mem : Int → UInt8) (memory : Nat → UInt8) (q : UInt8) :
    Nat → Int → Nat → Option (List UInt8 × List Int)
  | 0, _, _ => none
  | fuel + 1, s, d =>
      if mem s = 0 ∨ mem s = q then return ([], [s])
      else if mem s = 92 then do
        let c :=
          if mem (s + 1) = q then q
          else if mem (s + 1) = 10 ∨ mem (s + 1) = 9 ∨ mem (s + 1) = 92 then mem (s + 1)
          else memory d
        let (str, reads) ← unescapeLoop mem memory q fuel (s + 2) (d + 1)
        return (c :: str, s :: (s + 1) :: reads)
      else do
        let (str, reads) ← unescapeLoop mem memory q fuel (s + 1) (d + 1)
        return (mem s :: str, s :: reads)

/-- `str_unescape`, of the text at the address `s`, with the addresses it reads. -/
def unescape (mem : Int → UInt8) (memory : Nat → UInt8) (q : UInt8) (fuel : Nat) (s : Int) :
    Option (List UInt8 × List Int) := do
  let (str, reads) ← unescapeLoop mem memory q fuel (s + 1) 0
  return (terminated str, reads)

end Hquery

/-- The two versions of `trim`. -/
inductive TrimVersion where
  | client
  | lexer
deriving DecidableEq, Repr

namespace TrimVersion

/-- What a version takes for a blank. -/
def blank : TrimVersion → UInt8 → Bool
  | .client => isspace
  | .lexer => Hquery.isBlank

/-- A call for a string of `len` characters. -/
def trim (v : TrimVersion) (mem : Int → UInt8) (fuel : Nat) (src : Int) (len : Nat) : Option TrimRun :=
  match v with
  | .client => Scrc.trim mem fuel src
  | .lexer => Hquery.trim mem fuel src len

end TrimVersion

end Scroller

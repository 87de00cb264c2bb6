import Scroller.Datum
import Scroller.Sequence

/-!
# Calculating with data

The operators of `lib/core/src/type.c`. Signed arithmetic that leaves the range of its type is a fault, also
in the comparison of integers, which subtracts them.
-/

namespace Scroller

/-- Subtraction of `int64_t`. -/
def subInt64 (a b : Int64) : Except Fault Int64 :=
  if (a - b).toInt = a.toInt - b.toInt then .ok (a - b) else .error .signedOverflow

/-- Multiplication of `int64_t`. -/
def mulInt64 (a b : Int64) : Except Fault Int64 :=
  if (a * b).toInt = a.toInt * b.toInt then .ok (a * b) else .error .signedOverflow

/-- Division of `int64_t`. -/
def divInt64 (a b : Int64) : Except Fault Int64 :=
  if b = 0 then .error .divisionByZero
  else if (a / b).toInt = a.toInt.tdiv b.toInt then .ok (a / b)
  else .error .signedOverflow

/-- The remainder of `int64_t`, which is undefined where the quotient is. -/
def modInt64 (a b : Int64) : Except Fault Int64 :=
  if b = 0 then .error .divisionByZero
  else if (a / b).toInt = a.toInt.tdiv b.toInt then .ok (a % b)
  else .error .signedOverflow

/-- `to_base_type`. -/
def toBaseType (src : Datum) : Datum :=
  match src.type with
  | .smallint | .integer => { src with type := .bigint }
  | .char => { src with type := .varchar, character := charToVarchar src.character }
  | .unknown | .name | .bigint | .varchar => src

/-- `datum_zeroed`. An empty literal has its terminator behind it; what lies behind an empty cell is not known here, and
a table that is laid out (`Grid.LaidOut`) has none. -/
def datumZeroed (build : Build) (d : Datum) : Except Fault Bool :=
  match d.type with
  | .unknown => do
      build.assert False
      return false
  | .smallint | .integer | .bigint => return d.integer = 0
  | .name | .char | .varchar => return d.character.headD 0 = 0

/-- `data_comparable`. -/
def dataComparable (d1 d2 : Datum) : Bool :=
  d1.type.group = d2.type.group ∧ d1.type.group ≠ .unknown

/-- The macro `data_arithmetical`. -/
def dataArithmetical (d1 d2 : Datum) : Bool := d1.type.group = .integer ∧ d2.type.group = .integer

/-- The macro `data_lexical`. -/
def dataLexical (d1 d2 : Datum) : Bool := d1.type.group = .character ∧ d2.type.group = .character

/-- `cmp_integer`. -/
def Datum.cmpInteger (d1 d2 : Datum) : Except Fault Int := do
  let diff ← subInt64 (toBaseType d1).integer (toBaseType d2).integer
  return diff.toInt

/-- `cmp_character`. -/
def Datum.cmpCharacter (d1 d2 : Datum) : Int :=
  let d1 := (toBaseType d1).character
  let d2 := (toBaseType d2).character
  let ret := memcmp d1 d2
  if ret = 0 then
    if d1.length < d2.length then -1 else if d1.length > d2.length then 1 else 0
  else ret

/-- `cmp_data`. -/
def cmpData (build : Build) (d1 d2 : Datum) : Except Fault Int :=
  if dataComparable d1 d2 then
    match d1.type.group with
    | .unknown => do
        build.assert False
        return 0
    | .integer => d1.cmpInteger d2
    | .character => return d1.cmpCharacter d2
  else return 0

/-- The common body of `add_data`, `sub_data`, `mul_data`, `div_data` and `mod_data`. -/
def calcData (build : Build) (f : Int64 → Int64 → Except Fault Int64) (d1 d2 : Datum) :
    Except Fault Datum :=
  if dataComparable d1 d2 then
    match d1.type.group with
    | .integer => do
        let bigint ← f (toBaseType d1).integer (toBaseType d2).integer
        return makeBigint bigint
    | .unknown | .character => do
        build.assert False
        return d1
  else do
    build.assert False
    return d1

def addData (build : Build) : Datum → Datum → Except Fault Datum := calcData build addInt64

def subData (build : Build) : Datum → Datum → Except Fault Datum := calcData build subInt64

def mulData (build : Build) : Datum → Datum → Except Fault Datum := calcData build mulInt64

def divData (build : Build) : Datum → Datum → Except Fault Datum := calcData build divInt64

def modData (build : Build) : Datum → Datum → Except Fault Datum := calcData build modInt64

/-- `cat_data`. -/
def catData (build : Build) (d1 d2 : Datum) : Except Fault Datum :=
  if dataLexical d1 d2 then return makeChar (d1.character ++ d2.character)
  else do
    build.assert False
    return d1

/-- The loop of `like`. A position in a string is the rest of the string; `star` is the pattern behind the
last `%` with the position `ss`. -/
def likeLoop : Nat → List UInt8 → List UInt8 → Option (List UInt8 × List UInt8) → Except Fault Bool
  | 0, _, _, _ => .error .diverges
  | _ + 1, [], pattern, _ => return pattern.all (· = 37)
  | fuel + 1, c :: src, pattern, star =>
      if pattern.head? = some 37 then
        likeLoop fuel (c :: src) pattern.tail (some (pattern.tail, c :: src))
      else if pattern.head? = some 95 ∨ pattern.head? = some c then likeLoop fuel src pattern.tail star
      else
        match star with
        | some (pattern, ss) => likeLoop fuel ss.tail pattern (some (pattern, ss.tail))
        | none => return false

/-- `like`, with as much fuel as its loop can need. -/
def like (src pattern : List UInt8) : Except Fault Bool :=
  likeLoop ((pattern.length + src.length + 2) * (pattern.length + 1)) src pattern none

/-- `like_data`. -/
def likeData (build : Build) (d1 d2 : Datum) : Except Fault Bool := do
  build.assert (dataLexical d1 d2)
  like (toBaseType d1).character (toBaseType d2).character

end Scroller

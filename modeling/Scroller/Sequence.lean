import Mathlib.Data.UInt
import Scroller.Basic

/-!
# Sequences

`lib/core/src/sequence.c`. The only row of a sequence grid as a record.
-/

namespace Scroller

structure Sequence where
  minVal : Int64
  maxVal : Int64
  lastVal : Int64
  increment : Int64
  cycle : Int64
  isCalled : Int64
deriving DecidableEq, Repr

/-- `sequence_init`; `none` is an error. -/
def sequenceInit (minval maxval startval increment : Int64) (cycle : Bool) : Option Sequence :=
  if minval ≥ maxval then none
  else if startval < minval then none
  else if startval > maxval then none
  else if increment = 0 then none
  else some ⟨minval, maxval, startval, increment, if cycle then 1 else 0, 0⟩

/-- Addition of `int64_t`. -/
def addInt64 (a b : Int64) : Except Fault Int64 :=
  if (a + b).toInt = a.toInt + b.toInt then .ok (a + b) else .error .signedOverflow

/-- `sequence_nextval`: the sequence afterwards with the value, or `none` when it is used up. -/
def sequenceNextval (build : Build) (sequence : Sequence) :
    Except Fault (Option (Sequence × Int64)) := do
  build.assert (sequence.increment ≠ 0)
  if sequence.isCalled ≠ 0 then do
    let newval ← addInt64 sequence.lastVal sequence.increment
    if sequence.increment > 0 then
      if newval > sequence.maxVal then
        if sequence.cycle ≠ 0 then
          return some ({ sequence with lastVal := sequence.minVal }, sequence.minVal)
        else return none
      else return some ({ sequence with lastVal := newval }, newval)
    else if newval < sequence.minVal then
      if sequence.cycle ≠ 0 then
        return some ({ sequence with lastVal := sequence.maxVal }, sequence.maxVal)
      else return none
    else return some ({ sequence with lastVal := newval }, newval)
  else return some ({ sequence with isCalled := 1 }, sequence.lastVal)

/-- `sequence_currval`; `none` before the first call. -/
def sequenceCurrval (sequence : Sequence) : Option Int64 :=
  if sequence.isCalled ≠ 0 then some sequence.lastVal else none

/-- `sequence_setval`; `none` is an error, here and in the functions below. -/
def sequenceSetval (sequence : Sequence) (val : Int64) (isCalled : Bool) : Option Sequence :=
  if val > sequence.maxVal then none
  else if val < sequence.minVal then none
  else some { sequence with lastVal := val, isCalled := if isCalled then 1 else 0 }

/-- `sequence_set_minval`. -/
def sequenceSetMinval (sequence : Sequence) (val : Int64) : Option Sequence :=
  if val ≥ sequence.maxVal then none
  else if sequence.lastVal < val then none
  else some { sequence with minVal := val }

/-- `sequence_set_maxval`. -/
def sequenceSetMaxval (sequence : Sequence) (val : Int64) : Option Sequence :=
  if val ≤ sequence.minVal then none
  else if sequence.lastVal > val then none
  else some { sequence with maxVal := val }

/-- `sequence_set_increment`. -/
def sequenceSetIncrement (sequence : Sequence) (val : Int64) : Option Sequence :=
  if val = 0 then none else some { sequence with increment := val }

/-- `sequence_set_cycle`, which always succeeds. -/
def sequenceSetCycle (sequence : Sequence) (val : Bool) : Sequence :=
  { sequence with cycle := if val then 1 else 0 }

end Scroller

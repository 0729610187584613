/-! # Faults

The ways in which a computation of the machine can fail. A fault ends the run in which it
arises; everything observed up to that point stands. -/

namespace Mlfq

/-- What stops a run. -/
inductive Fault where
  /-- An addition on machine words left the word range. -/
  | addOverflow
  /-- Entry `index` was asked of a sequence of `length` entries. -/
  | indexOutOfBounds (length index : Nat)
  /-- A number was to be drawn from a range without elements. -/
  | emptyRange
  deriving DecidableEq

/-- The text under which a fault is reported. -/
def Fault.message : Fault → String
  | .addOverflow => "attempt to add with overflow"
  | .indexOutOfBounds length index =>
    s!"index out of bounds: the len is {length} but the index is {index}"
  | .emptyRange => "cannot sample empty range"

end Mlfq

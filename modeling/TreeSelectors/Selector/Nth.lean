/-!
# Selector/Nth — positions of the form `step * k + offset`

An `Nth` picks the positions `step * k + offset` for `k = 0, 1, 2, …`, where positions are counted
from one. Both numbers are signed words of 32 bits; the test itself is exact integer arithmetic.
-/

namespace TreeSelectors

/-- The positions `step * k + offset` for natural `k`. -/
structure Nth where
  step : Int32
  offset : Int32
  deriving DecidableEq, Repr

namespace Nth

/-- How far `position` lies beyond the offset. -/
def distance (f : Nth) (position : Nat) : Int :=
  position - f.offset.toInt

/-- Whether `position` is one that `f` picks: the distance is a whole number of steps, none of them
backwards. -/
def picks (f : Nth) (position : Nat) : Bool :=
  if f.step = 0 then f.distance position == 0
  else (f.distance position).tmod f.step.toInt == 0 &&
    0 ≤ (f.distance position).tdiv f.step.toInt

end Nth

end TreeSelectors

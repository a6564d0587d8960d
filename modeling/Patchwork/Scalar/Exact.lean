import Patchwork.Scalar

/-!
# Exact scalars

Rational numbers, where every operation is exact and a turn has a sine and cosine of 0, 1 or -1.
-/

namespace Patchwork

namespace Turn

def exactSine : Turn → Rat
  | zero => 0
  | quarter => 1
  | half => 0
  | threeQuarter => -1

def exactCosine : Turn → Rat
  | zero => 1
  | quarter => 0
  | half => -1
  | threeQuarter => 0

end Turn

instance exactScalar : Scalar Rat where
  zero := 0
  decideLT _ _ := inferInstance
  decideLE _ _ := inferInstance
  ofInt n := n
  finite _ := true
  whole? r := if r.den = 1 then some r.num else none
  sine := Turn.exactSine
  cosine := Turn.exactCosine
  tolerance := 1 / 1000000000

end Patchwork

import Patchwork.Turn

/-!
# Scalars

Lengths and coordinates. Layout and evaluation are written over any type with these operations and
assume no law of them, so that what they say holds for rounded as well as for exact arithmetic.
-/

namespace Patchwork

class Scalar (K : Type) extends Zero K, Add K, Sub K, Mul K, Div K, Neg K, BEq K, LT K, LE K where
  decideLT (a b : K) : Decidable (a < b)
  decideLE (a b : K) : Decidable (a ≤ b)
  /-- The scalar nearest to an integer. -/
  ofInt : Int → K
  finite : K → Bool
  /-- The integer that a scalar is equal to, if there is one. -/
  whole? : K → Option Int
  sine : Turn → K
  cosine : Turn → K
  /-- How far a patch may stick out of a box that contains it. -/
  tolerance : K

namespace Scalar

variable {K : Type} [Scalar K]

instance decidableLT (a b : K) : Decidable (a < b) := decideLT a b

instance decidableLE (a b : K) : Decidable (a ≤ b) := decideLE a b

def ofNat (n : Nat) : K :=
  ofInt n

def half (a : K) : K :=
  a / ofInt 2

/-- The sizes that a rectangle may have. -/
def usable (a : K) : Bool :=
  decide (0 < a) && finite a

end Scalar

/-- The written forms of a scalar: `plain` stands in messages and drawings, `exact` in data and
only for finite scalars. -/
class Numeral (K : Type) where
  plain : K → String
  exact : K → String

end Patchwork

import Patchwork.Scalar

/-!
# Double precision scalars

A finite double is a signed integer times a power of two. Its fields are read from its bits, so that
integrality and exact value are found without further rounding.
-/

namespace Patchwork

/-- The magnitude of a finite double: `mantissa * 2 ^ exponent`. -/
structure Binary64 where
  negative : Bool
  mantissa : Nat
  exponent : Int
  deriving DecidableEq, Repr

namespace Binary64

/-- The bit that stands in front of the fraction. -/
def hiddenBit : Nat :=
  Nat.pow 2 52

def exponentField (x : Float) : Nat :=
  x.toBits.toNat / hiddenBit % 2048

def fractionField (x : Float) : Nat :=
  x.toBits.toNat % hiddenBit

def isNegative (x : Float) : Bool :=
  decide (Nat.pow 2 63 ≤ x.toBits.toNat)

def isFinite (x : Float) : Bool :=
  exponentField x != 2047

def isNaN (x : Float) : Bool :=
  exponentField x == 2047 && fractionField x != 0

/-- The exact value of a finite double. A zero exponent field has no hidden bit. -/
def ofFloat? (x : Float) : Option Binary64 :=
  if !isFinite x then none
  else if exponentField x = 0 then some ⟨isNegative x, fractionField x, -1074⟩
  else some ⟨isNegative x, hiddenBit + fractionField x, (exponentField x : Int) - 1075⟩

/-- A power of two has its lower neighbour half as far away as its upper one, except at the bottom
of the range. -/
def isNarrowBelow (b : Binary64) : Bool :=
  b.mantissa == hiddenBit && decide (-1074 < b.exponent)

def signed (b : Binary64) (magnitude : Nat) : Int :=
  if b.negative then -(magnitude : Int) else magnitude

def toInt? (b : Binary64) : Option Int :=
  if 0 ≤ b.exponent then
    some (b.signed (b.mantissa * Nat.pow 2 b.exponent.toNat))
  else if b.mantissa % Nat.pow 2 (-b.exponent).toNat = 0 then
    some (b.signed (b.mantissa / Nat.pow 2 (-b.exponent).toNat))
  else none

end Binary64

namespace Turn

/-- The sine of the nearest double to the angle in radians. -/
def binary64Sine : Turn → Float
  | zero => 0.0
  | quarter => 1.0
  | half => 1.2246467991473532e-16
  | threeQuarter => -1.0

/-- The cosine of the nearest double to the angle in radians: a quarter turn is not quite a right
angle there, and leaves a remainder. -/
def binary64Cosine : Turn → Float
  | zero => 1.0
  | quarter => 6.123233995736766e-17
  | half => -1.0
  | threeQuarter => -1.8369701987210297e-16

end Turn

instance binary64Scalar : Scalar Float where
  zero := 0.0
  decideLT _ _ := inferInstance
  decideLE _ _ := inferInstance
  ofInt := Float.ofInt
  finite := Binary64.isFinite
  whole? x := (Binary64.ofFloat? x).bind Binary64.toInt?
  sine := Turn.binary64Sine
  cosine := Turn.binary64Cosine
  tolerance := 1e-9

end Patchwork

import Patchwork.Scalar

/-!
# Scalars that count

What the limit on patches relies on when the number of copies is a scalar: converted numbers keep
their order, and a product of whole numbers is not rounded past a number that is held exactly.
-/

namespace Patchwork

namespace Scalar

/-- Every whole number up to here is held exactly. -/
def exactLimit : Nat :=
  Nat.pow 2 53

class Counting (K : Type) [Scalar K] : Prop where
  /-- What is beyond a number is beyond every smaller number. -/
  lt_of_le {m n : Nat} {x : K} : m ≤ n → ofNat n < x → ofNat m < x
  /-- A product of whole numbers that is beyond an exact number is found to be beyond it. -/
  lt_mul {m n : Nat} {x : K} {count : Int} : whole? x = some count → m < exactLimit →
    n < exactLimit → (m : Int) < count * n → ofNat m < x * ofNat n

end Scalar

end Patchwork

import Patchwork.Scalar.Binary64

/-!
# Shortest decimals

Every real number close enough to a double is rounded to it. The shortest decimal of a double is
the one with the fewest digits in that interval, and of those the nearest to the double. It is found
by looking, on one decimal grid after another, at the two grid points around the double: if any
point of a grid is in the interval then one of these two is.
-/

namespace Patchwork

/-- The number `d.ddd * 10 ^ leading`, its digits without zeros at the end. -/
structure Decimal where
  digits : List Char
  leading : Int
  deriving DecidableEq, Repr

namespace Decimal

def zero : Decimal :=
  ⟨['0'], 0⟩

/-- The number `n * 10 ^ exponent`. -/
def ofScaled (n : Nat) (exponent : Int) : Decimal :=
  let digits := Nat.toDigits 10 n
  ⟨(digits.reverse.dropWhile (· == '0')).reverse, exponent + digits.length - 1⟩

/-- Which of two points is taken where both are equally near. -/
inductive Tie where
  | upward
  | toEven
  deriving DecidableEq, Repr

end Decimal

/-- A double and the reals that are rounded to it, as fractions with one denominator. The ends of
the interval belong to it where it is `closed`. -/
structure RoundingInterval where
  low : Nat
  value : Nat
  high : Nat
  denominator : Nat
  closed : Bool
  deriving DecidableEq, Repr

namespace RoundingInterval

/-- In quarters of the last place the neighbours are 4 away, and 2 away below where the double is
narrow; the ends lie halfway. They are rounded to the double where its mantissa is even. -/
def ofBinary64 (b : Binary64) : RoundingInterval :=
  let scale := Nat.pow 2 (b.exponent - 2).toNat
  let low := if b.isNarrowBelow then 4 * b.mantissa - 1 else 4 * b.mantissa - 2
  ⟨low * scale, 4 * b.mantissa * scale, (4 * b.mantissa + 2) * scale,
    Nat.pow 2 (2 - b.exponent).toNat, b.mantissa % 2 == 0⟩

/-- The same interval measured in units of `10 ^ exponent`. -/
def onGrid (i : RoundingInterval) (exponent : Int) : RoundingInterval :=
  let scale := Nat.pow 10 (-exponent).toNat
  ⟨i.low * scale, i.value * scale, i.high * scale, i.denominator * Nat.pow 10 exponent.toNat,
    i.closed⟩

def holds (i : RoundingInterval) (n : Nat) : Bool :=
  if i.closed then i.low ≤ n * i.denominator && n * i.denominator ≤ i.high
  else i.low < n * i.denominator && n * i.denominator < i.high

/-- Whether the value is at least `10 ^ exponent`. -/
def reaches (i : RoundingInterval) (exponent : Int) : Bool :=
  let g := i.onGrid exponent
  g.denominator ≤ g.value

/-- The power of ten of the first digit. The estimate by binary digits is off by one at most. -/
def leading (i : RoundingInterval) : Int :=
  let bits : Int := (Nat.log2 i.value : Int) - Nat.log2 i.denominator
  let estimate := bits * 30103 / 100000
  if i.reaches (estimate + 1) then estimate + 1
  else if i.reaches estimate then estimate
  else estimate - 1

/-- The nearer of the points below and above that are in the interval. -/
def nearest? (tie : Decimal.Tie) (i : RoundingInterval) : Option Nat :=
  let below := i.value / i.denominator
  let twiceExcess := 2 * (i.value % i.denominator)
  let upper : Bool :=
    match tie with
    | .upward => i.denominator ≤ twiceExcess
    | .toEven =>
      i.denominator < twiceExcess || (i.denominator == twiceExcess && below % 2 == 1)
  match i.holds below, i.holds (below + 1) with
  | true, true => some (if upper then below + 1 else below)
  | true, false => some below
  | false, true => some (below + 1)
  | false, false => none

/-- The answer on the grid that gives `count` digits. -/
def withDigits? (tie : Decimal.Tie) (i : RoundingInterval) (count : Nat) : Option Decimal :=
  let exponent := i.leading - count + 1
  ((i.onGrid exponent).nearest? tie).map fun n => Decimal.ofScaled n exponent

end RoundingInterval

/-- Seventeen digits tell any two doubles apart, so the search ends there at the latest. -/
def Decimal.shortest (tie : Decimal.Tie) (b : Binary64) : Decimal :=
  if b.mantissa = 0 then Decimal.zero
  else
    let i := RoundingInterval.ofBinary64 b
    ((List.range' 1 17).findSome? (i.withDigits? tie)).getD Decimal.zero

end Patchwork

import Patchwork.Scalar.Binary64

/-!
# Reading decimals

A number as it is typed: a sign, digits with or without a point, an exponent; or a word for infinity
or for an undefined value.
-/

namespace Patchwork

namespace Decimal

/-- A sign in front of a text, and the rest. -/
def splitSign : List Char → Bool × List Char
  | '-' :: cs => (true, cs)
  | '+' :: cs => (false, cs)
  | cs => (false, cs)

def natOfDigits (digits : List Char) : Nat :=
  Nat.ofDigitChars 10 digits 0

def digits? (cs : List Char) : Option Nat :=
  if cs.isEmpty || !cs.all Char.isDigit then none else some (natOfDigits cs)

/-- What follows the digits: nothing, or an exponent. -/
def exponent? : List Char → Option Int
  | [] => some 0
  | c :: cs =>
    if c = 'e' || c = 'E' then
      let (negative, ds) := splitSign cs
      (digits? ds).map fun n => if negative then -(n : Int) else n
    else none

/-- The nearest double to `n * 10 ^ exponent`. Numbers far out of the range are decided by their
size alone. -/
def scaledFloat (n : Nat) (exponent : Int) : Float :=
  let leading := exponent + (Nat.toDigits 10 n).length
  if n = 0 then 0.0
  else if 400 < leading then 1.0 / 0.0
  else if leading < -400 then 0.0
  else if exponent < 0 then Float.ofScientific n true exponent.natAbs
  else Float.ofScientific n false exponent.natAbs

/-- The magnitude of a number that is written with digits. -/
def magnitude? (cs : List Char) : Option Float :=
  let whole := cs.takeWhile Char.isDigit
  let behind := cs.dropWhile Char.isDigit
  let (fraction, tail) :=
    match behind with
    | '.' :: rest => (rest.takeWhile Char.isDigit, rest.dropWhile Char.isDigit)
    | _ => ([], behind)
  if whole.isEmpty && fraction.isEmpty then none
  else
    (exponent? tail).map fun e =>
      scaledFloat (natOfDigits (whole ++ fraction)) (e - fraction.length)

def word? (cs : List Char) : Option Float :=
  let word := String.ofList (cs.map Char.toLower)
  if word = "inf" || word = "infinity" then some (1.0 / 0.0)
  else if word = "nan" then some (0.0 / 0.0)
  else none

/-- The double that a text names. -/
def float? (text : String) : Option Float :=
  let (negative, cs) := splitSign text.toList
  let x? := (word? cs).or (magnitude? cs)
  x?.map fun x => if negative then -x else x

/-- A count: digits, perhaps behind a plus sign, that fit into 64 bits. -/
def count? (text : String) : Option Nat :=
  let cs :=
    match text.toList with
    | '+' :: cs => cs
    | cs => cs
  (digits? cs).filter fun n => n < Nat.pow 2 64

end Decimal

end Patchwork

import Patchwork.Decimal.Shortest

/-!
# Written forms of decimals

A form says when a number is written positionally and when with an exponent, and how each of them
looks.
-/

namespace Patchwork

namespace Decimal

structure Form where
  tie : Tie
  /-- The first digit's powers of ten that are written positionally, or all of them if none are
  given. -/
  positional : Option (Int × Int)
  /-- Whether a whole number keeps a zero behind the point. -/
  point : Bool
  /-- Whether a positive exponent has a sign. -/
  signedExponent : Bool
  deriving DecidableEq, Repr

namespace Form

/-- Messages and drawings never have an exponent, and no point in whole numbers. -/
def plain : Form :=
  ⟨.upward, none, false, false⟩

/-- Data has a point or an exponent in every number, and short small numbers are positional. -/
def data : Form :=
  ⟨.toEven, some (-5, 15), true, true⟩

/-- A number shown on its own has a point or an exponent. -/
def shown : Form :=
  ⟨.upward, some (-4, 15), true, false⟩

def isPositional (form : Form) (leading : Int) : Bool :=
  match form.positional with
  | none => true
  | some (lowest, highest) => lowest ≤ leading && leading ≤ highest

def zeros (n : Nat) : List Char :=
  List.replicate n '0'

def writePositional (form : Form) (d : Decimal) : List Char :=
  if d.leading < 0 then
    ['0', '.'] ++ zeros (-d.leading - 1).toNat ++ d.digits
  else
    let wholeDigits := d.leading.toNat + 1
    if d.digits.length ≤ wholeDigits then
      d.digits ++ zeros (wholeDigits - d.digits.length) ++ (if form.point then ['.', '0'] else [])
    else d.digits.take wholeDigits ++ '.' :: d.digits.drop wholeDigits

def writeExponent (form : Form) (exponent : Int) : List Char :=
  let sign := if exponent < 0 then ['-'] else if form.signedExponent then ['+'] else []
  'e' :: sign ++ Nat.toDigits 10 exponent.natAbs

def writeScientific (form : Form) (d : Decimal) : List Char :=
  let fraction := d.digits.drop 1
  d.digits.take 1 ++ (if fraction.isEmpty then [] else '.' :: fraction) ++
    writeExponent form d.leading

def write (form : Form) (d : Decimal) : List Char :=
  if form.isPositional d.leading then form.writePositional d else form.writeScientific d

/-- The text of a double. The sign of a zero shows, that of an undefined value does not. -/
def text (form : Form) (x : Float) : String :=
  if Binary64.isNaN x then "NaN"
  else
    let magnitude :=
      match Binary64.ofFloat? x with
      | some b => form.write (Decimal.shortest form.tie b)
      | none => ['i', 'n', 'f']
    String.ofList (if Binary64.isNegative x then '-' :: magnitude else magnitude)

end Form

end Decimal

instance binary64Numeral : Numeral Float where
  plain := Decimal.Form.plain.text
  exact := Decimal.Form.data.text

end Patchwork

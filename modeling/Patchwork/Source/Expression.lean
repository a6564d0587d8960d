import Patchwork.Color
import Patchwork.Expr
import Patchwork.Source.Reading

/-!
# Expressions from tokens

A sum is made of products and a product of atoms, both to the left. An atom opens a level of
nesting, and the levels are limited. The name of a dye is always a color; another identifier in
front of a parenthesis is always a call.
-/

namespace Patchwork

namespace Reading

def isDyeName (text : String) : Bool :=
  (Dye.ofName? text).isSome

section Atom

/-!
The parts of an atom, given how the atoms inside it are read.
-/

variable (atom : Reading Expr)

def product : Reading Expr := do
  let (first, others) ← separated .star atom
  return others.foldl (Expr.arithmetic .times) first

def sum : Reading Expr := do
  let (first, others) ← separated .plus (product atom)
  return others.foldl (Expr.arithmetic .plus) first

def items : Reading (List Expr) := do
  let (first, others) ← separated .comma (sum atom)
  return first :: others

/-- The two operands of `rot` and `rep`, either in a call or one behind the other. A parenthesis
that directly follows may be that of a call or may only group the first operand. -/
def operands : Reading (Expr × Expr) := do
  if ← skip? .leftParen then
    let first ← sum atom
    if ← skip? .comma then
      let second ← sum atom
      discard (expect .rightParen)
      return (first, second)
    else
      discard (expect .rightParen)
      return (first, ← atom)
  else
    let first ← atom
    return (first, ← atom)

def integerLimit : Nat :=
  Nat.pow 2 63

def integer (t : Token) : Reading Expr := do
  let n := Nat.ofDigitChars 10 t.text.toList 0
  if n < integerLimit then
    advance
    return .number n
  else fail (.numberTooLarge t.text)

def arguments : Reading (List Expr) := do
  if ← skip? .rightParen then return []
  else
    let es ← items atom
    discard (expect .rightParen)
    return es

def identifier (t : Token) : Reading Expr := do
  advance
  if isDyeName t.text then return .color t.text
  else if ← skip? .leftParen then return .call t.text (← arguments atom)
  else return .name t.text

def group : Reading Expr := do
  advance
  let e ← sum atom
  discard (expect .rightParen)
  return e

def rect : Reading Expr := do
  advance
  discard (expect .leftParen)
  let width ← sum atom
  discard (expect .comma)
  let height ← sum atom
  discard (expect .comma)
  let color ← sum atom
  discard (expect .rightParen)
  return .rect width height color

def strip (axis : Axis) : Reading Expr := do
  advance
  discard (expect .leftParen)
  let es ← items atom
  discard (expect .rightParen)
  return .strip axis es

/-- Any identifier or string is read as an anchor; whether it is one is not a matter of form. -/
def anchor : Reading String := do
  match ← peek with
  | some t =>
    if t.kind = .identifier || t.kind = .string then
      advance
      return t.content
    else fail .noAnchor
  | none => fail .noAnchor

def overlay : Reading Expr := do
  advance
  discard (expect .leftParen)
  let a ← anchor
  discard (expect .comma)
  let es ← items atom
  discard (expect .rightParen)
  return .overlay a es

/-- A number that is directly the angle is meant in degrees. -/
def asAngle : Expr → Expr
  | .number n => .angle n
  | e => e

def rot : Reading Expr := do
  advance
  let (angle, target) ← operands atom
  return .rot (asAngle angle) target

def rep : Reading Expr := do
  advance
  let (count, target) ← operands atom
  return .rep count target

def atomWith : Reading Expr := do
  match ← peek with
  | none => fail .unexpectedEnd
  | some t =>
    match t.kind with
    | .integer => integer t
    | .string => do advance; return .color t.content
    | .hex => do advance; return .color t.content
    | .identifier => identifier atom t
    | .leftParen => group atom
    | .rect => rect atom
    | .hor => strip atom .horizontal
    | .vert => strip atom .vertical
    | .overlay => overlay atom
    | .rot => rot atom
    | .rep => rep atom
    | _ => fail (.unexpected t.text)

end Atom

/-- An atom where `levels` of `limit` levels of nesting are left. -/
def atomWithin (limit levels : Nat) : Reading Expr :=
  match levels with
  | 0 => fail (.tooDeep limit)
  | levels + 1 => atomWith (atomWithin limit levels)

def expression (limit : Nat) : Reading Expr :=
  sum (atomWithin limit limit)

end Reading

end Patchwork

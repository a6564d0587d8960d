import Patchwork.Source.Position

/-!
# Tokens

The words and signs of a program text, each with its spelling and the position of its first
character.
-/

namespace Patchwork

namespace Token

inductive Kind where
  | rect
  | hor
  | vert
  | overlay
  | rot
  | rep
  | function
  | design
  | number
  | color
  | angle
  | string
  | hex
  | integer
  | identifier
  | leftParen
  | rightParen
  | comma
  | semicolon
  | equal
  | plus
  | star
  deriving DecidableEq, Repr

namespace Kind

/-- The name under which a complaint about a text mentions the kind. -/
def name : Kind → String
  | rect => "Rect"
  | hor => "Hor"
  | vert => "Vert"
  | overlay => "Over"
  | rot => "Rot"
  | rep => "Rep"
  | function => "Fun"
  | design => "Design"
  | number => "Num"
  | color => "Color"
  | angle => "Angle"
  | string => "String"
  | hex => "Hex"
  | integer => "Int"
  | identifier => "Ident"
  | leftParen => "LParen"
  | rightParen => "RParen"
  | comma => "Comma"
  | semicolon => "Semicolon"
  | equal => "Equal"
  | plus => "Plus"
  | star => "Star"

def keywords : List (String × Kind) :=
  [("rect", rect), ("hor", hor), ("vert", vert), ("over", overlay), ("rot", rot), ("rep", rep),
    ("fun", function), ("design", design), ("num", number), ("color", color), ("angle", angle)]

def marks : List (Char × Kind) :=
  [('(', leftParen), (')', rightParen), (',', comma), (';', semicolon), ('=', equal),
    ('+', plus), ('*', star)]

/-- A word is an identifier unless all of it is a keyword. -/
def ofWord (word : String) : Kind :=
  (keywords.lookup word).getD identifier

def ofMark? (c : Char) : Option Kind :=
  marks.lookup c

end Kind

end Token

structure Token where
  kind : Token.Kind
  text : String
  position : Position
  deriving DecidableEq, Repr

/-- What a token says: a string without its quotes, anything else as it stands. -/
def Token.content (t : Token) : String :=
  if t.kind = .string then String.ofList (t.text.toList.drop 1).dropLast else t.text

end Patchwork

import Patchwork.Axis

/-!
# Expressions and programs

A program defines names and then describes one design, its goal. The trees hold more than any text
can spell: numbers may be negative, lists empty, names arbitrary.
-/

namespace Patchwork

inductive Operator where
  | plus
  | times
  deriving DecidableEq, Repr

/-- The sign that the operator is written with. -/
def Operator.sign : Operator → String
  | plus => "+"
  | times => "*"

inductive Expr where
  | number (value : Int)
  | angle (degrees : Int)
  | color (text : String)
  | name (x : String)
  | call (f : String) (arguments : List Expr)
  | arithmetic (op : Operator) (left right : Expr)
  | rect (width height color : Expr)
  | strip (axis : Axis) (items : List Expr)
  | overlay (anchor : String) (items : List Expr)
  | rot (angle target : Expr)
  | rep (count target : Expr)
  deriving Repr

/-- The kind that a definition asks its value to have. -/
inductive DeclaredKind where
  | rect
  | design
  | number
  | color
  | angle
  deriving DecidableEq, Repr

def DeclaredKind.name : DeclaredKind → String
  | rect => "Rect"
  | design => "Design"
  | number => "Num"
  | color => "Color"
  | angle => "Angle"

inductive Definition where
  | declared (kind : DeclaredKind) (name : String) (value : Expr)
  | assigned (name : String) (value : Expr)
  | function (name : String) (parameters : List String) (body : Expr)
  deriving Repr

def Definition.name : Definition → String
  | declared _ name _ => name
  | assigned name _ => name
  | function name _ _ => name

structure Program where
  definitions : List Definition
  goal : Expr
  deriving Repr

end Patchwork

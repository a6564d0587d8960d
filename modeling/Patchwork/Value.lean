import Patchwork.Design
import Patchwork.Expr

/-!
# Values

What an expression can stand for. Patches and designs can be drawn, the other values cannot.
-/

namespace Patchwork

inductive Kind where
  | number
  | angle
  | color
  | patch
  | design
  | function
  deriving DecidableEq, Repr

def Kind.name : Kind → String
  | number => "number"
  | angle => "angle"
  | color => "color"
  | patch => "patch"
  | design => "design"
  | function => "function"

/-- A function waits for its arguments: its body is not evaluated before. -/
structure Function where
  parameters : List String
  body : Expr
  deriving Repr

inductive Value (K : Type) where
  | number (n : K)
  | angle (degrees : Int)
  | color (c : Color)
  | patch (p : Patch K)
  | design (d : Design K)
  | function (f : Function)
  deriving Repr

namespace Value

variable {K : Type}

def kind : Value K → Kind
  | number _ => .number
  | angle _ => .angle
  | color _ => .color
  | patch _ => .patch
  | design _ => .design
  | function _ => .function

variable [Scalar K]

/-- The value as a design, if it can be drawn. -/
def toDesign? : Value K → Option (Design K)
  | patch p => some (Design.ofPatch p)
  | design d => some d
  | _ => none

/-- How many patches one copy of the value is counted as. -/
def patchCount : Value K → Nat
  | design d => d.patches.length
  | _ => 1

end Value

/-- A rectangle and a design may stand for each other, and a number for an angle. -/
def DeclaredKind.admits : DeclaredKind → Kind → Bool
  | rect, k => k == .patch || k == .design
  | design, k => k == .patch || k == .design
  | number, k => k == .number
  | color, k => k == .color
  | angle, k => k == .angle || k == .number

end Patchwork

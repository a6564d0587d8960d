import Patchwork.Color
import Patchwork.Scalar

/-!
# Patches and designs

A patch is a colored rectangle; a design is a box and the patches placed in it, painted in order.
The origin is the top left corner, `x` grows to the right and `y` downwards.
-/

namespace Patchwork

structure Patch (K : Type) where
  x : K
  y : K
  width : K
  height : K
  color : Color
  deriving DecidableEq, Repr

structure Design (K : Type) where
  width : K
  height : K
  patches : List (Patch K)
  deriving DecidableEq, Repr

variable {K : Type} [Scalar K]

namespace Patch

/-- A patch that no layout has placed yet. -/
def unplaced (width height : K) (color : Color) : Patch K :=
  ⟨0, 0, width, height, color⟩

def moved (p : Patch K) (dx dy : K) : Patch K :=
  { p with x := p.x + dx, y := p.y + dy }

/-- The position stays and the sides trade places. -/
def swapped (p : Patch K) : Patch K :=
  { p with width := p.height, height := p.width }

def liesWithin (p : Patch K) (width height : K) : Bool :=
  decide (-Scalar.tolerance ≤ p.x) && decide (-Scalar.tolerance ≤ p.y) &&
    decide (p.x + p.width ≤ width + Scalar.tolerance) &&
    decide (p.y + p.height ≤ height + Scalar.tolerance)

end Patch

namespace Design

/-- The design of one patch is framed by it, wherever the patch was. -/
def ofPatch (p : Patch K) : Design K :=
  ⟨p.width, p.height, [{ p with x := 0, y := 0 }]⟩

/-- All patches moved; a box has no position of its own. -/
def moved (d : Design K) (dx dy : K) : List (Patch K) :=
  d.patches.map fun p => p.moved dx dy

/-- Every patch lies in the box, up to the tolerance. -/
def isWithinBox (d : Design K) : Bool :=
  d.patches.all fun p => p.liesWithin d.width d.height

end Design

end Patchwork

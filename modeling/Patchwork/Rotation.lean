import Patchwork.Fault

/-!
# Rotation

A design is turned about its origin and then moved so that its box starts at the origin again. A
patch on its own keeps its place and only changes its shape.
-/

namespace Patchwork

/-- The turn by an angle in degrees. -/
def Turn.ofDegrees {K : Type} (angle : Int) : Except (Fault K) Turn :=
  match Turn.ofDegrees? angle with
  | some t => .ok t
  | none => .error (.unsupportedAngle angle)

variable {K : Type} [Scalar K]

/-- The image of a point. Since `y` grows downwards, the usual matrix turns clockwise. -/
def Turn.point (t : Turn) (x y : K) : K × K :=
  (Scalar.cosine t * x - Scalar.sine t * y, Scalar.sine t * x + Scalar.cosine t * y)

namespace Patch

def turned (t : Turn) (p : Patch K) : Patch K :=
  if t.isSideways then p.swapped else p

/-- The patch after its design was turned into a box of the given size. The corner that is turned
is the one that ends up at the top left. -/
def turnedWithin (t : Turn) (width height : K) (p : Patch K) : Patch K :=
  match t with
  | .zero => p
  | .quarter =>
    let corner := t.point p.x (p.y + p.height)
    ⟨corner.1 + width, corner.2, p.height, p.width, p.color⟩
  | .half =>
    let corner := t.point (p.x + p.width) (p.y + p.height)
    ⟨corner.1 + width, corner.2 + height, p.width, p.height, p.color⟩
  | .threeQuarter =>
    let corner := t.point (p.x + p.width) p.y
    ⟨corner.1, corner.2 + height, p.height, p.width, p.color⟩

end Patch

def Design.turned (t : Turn) (d : Design K) : Design K :=
  let width := if t.isSideways then d.height else d.width
  let height := if t.isSideways then d.width else d.height
  ⟨width, height, d.patches.map (Patch.turnedWithin t width height)⟩

def Value.turned (t : Turn) : Value K → Except (Fault K) (Value K)
  | .patch p => .ok (.patch (p.turned t))
  | .design d => .ok (.design (d.turned t))
  | v => .error (.wrongKind .turnTarget v.kind)

end Patchwork

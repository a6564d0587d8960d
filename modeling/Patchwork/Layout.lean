import Patchwork.Anchor
import Patchwork.Fault

/-!
# Layouts

Elements are joined to a design one after another. In a strip every element touches the one before
it and all agree with the first across the axis; in an overlay every element is anchored in the box
of the first. What is joined later is painted later.
-/

namespace Patchwork

/-- The anchor of a name. -/
def Anchor.ofName {K : Type} (text : String) : Except (Fault K) Anchor :=
  match Anchor.ofName? text with
  | some anchor => .ok anchor
  | none => .error (.unsupportedAnchor text)

variable {K : Type} [Scalar K]

namespace Design

/-- The right design starts where the box of the left one ends. -/
def beside (left right : Design K) : Design K :=
  ⟨left.width + right.width, left.height, left.patches ++ right.moved left.width 0⟩

/-- The lower design starts where the box of the upper one ends. -/
def above (top bottom : Design K) : Design K :=
  ⟨top.width, top.height + bottom.height, top.patches ++ bottom.moved 0 top.height⟩

/-- The box stays that of the lower design, also where the upper one sticks out. -/
def under (lower : Design K) (anchor : Anchor) (upper : Design K) : Design K :=
  let place := anchor.offset lower.width lower.height upper.width upper.height
  { lower with patches := lower.patches ++ upper.moved place.1 place.2 }

end Design

inductive Layout where
  | strip (axis : Axis)
  | overlay (anchor : Anchor)
  deriving DecidableEq, Repr

namespace Layout

def arrangement : Layout → Arrangement
  | strip axis => .strip axis
  | overlay _ => .overlay

/-- A value as an element of the layout. -/
def element (layout : Layout) (v : Value K) : Except (Fault K) (Design K) :=
  match v.toDesign? with
  | some d => .ok d
  | none => .error (.wrongKind (.element layout.arrangement) v.kind)

def join (layout : Layout) (base item : Design K) : Except (Fault K) (Design K) :=
  match layout with
  | strip .horizontal =>
    if item.height == base.height then .ok (base.beside item)
    else .error (.unequalSides .horizontal base.height item.height)
  | strip .vertical =>
    if item.width == base.width then .ok (base.above item)
    else .error (.unequalSides .vertical base.width item.width)
  | overlay anchor => .ok (base.under anchor item)

/-- One more element. When it does not fit, the design so far is still there to go on with. -/
def push (layout : Layout) (base : Design K) (v : Value K) : Except (Fault K) (Design K) := do
  let item ← layout.element v
  layout.join base item

/-- All elements in order, up to the first that does not fit. -/
def compose (layout : Layout) : List (Value K) → Except (Fault K) (Design K)
  | [] => .error (.emptyArrangement layout.arrangement)
  | v :: vs => do
    let first ← layout.element v
    vs.foldlM layout.push first

end Layout

end Patchwork

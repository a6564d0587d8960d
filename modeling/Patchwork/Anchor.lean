import Patchwork.Scalar

/-!
# Anchors

Where a box is put in another one: into a corner, or so that their centers meet.
-/

namespace Patchwork

inductive Anchor where
  | topLeft
  | topRight
  | bottomLeft
  | bottomRight
  | center
  deriving DecidableEq, Repr

namespace Anchor

def all : List Anchor :=
  [topLeft, topRight, bottomLeft, bottomRight, center]

def name : Anchor → String
  | topLeft => "TL"
  | topRight => "TR"
  | bottomLeft => "BL"
  | bottomRight => "BR"
  | center => "C"

def ofName? (text : String) : Option Anchor :=
  all.find? fun a => a.name == text

theorem ofName?_name (a : Anchor) : ofName? a.name = some a := by
  cases a <;> decide

theorem name_of_ofName? {text : String} {a : Anchor} (h : ofName? text = some a) :
    a.name = text := by
  simpa using List.find?_some h

variable {K : Type} [Scalar K]

/-- The place of the top left corner of a box of size `width` by `height` in a box of size
`outerWidth` by `outerHeight`. It is negative where the inner box is the larger one. -/
def offset (anchor : Anchor) (outerWidth outerHeight width height : K) : K × K :=
  match anchor with
  | topLeft => (0, 0)
  | topRight => (outerWidth - width, 0)
  | bottomLeft => (0, outerHeight - height)
  | bottomRight => (outerWidth - width, outerHeight - height)
  | center =>
    (Scalar.half outerWidth - Scalar.half width, Scalar.half outerHeight - Scalar.half height)

end Anchor

end Patchwork

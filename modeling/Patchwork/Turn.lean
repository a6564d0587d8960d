/-!
# Turns

Clockwise rotations by the four multiples of a right angle. No other angle is a turn.
-/

namespace Patchwork

inductive Turn where
  | zero
  | quarter
  | half
  | threeQuarter
  deriving DecidableEq, Repr

namespace Turn

def degrees : Turn → Int
  | zero => 0
  | quarter => 90
  | half => 180
  | threeQuarter => 270

def all : List Turn :=
  [zero, quarter, half, threeQuarter]

/-- Only the degrees that `degrees` gives name a turn: angles are not reduced modulo 360. -/
def ofDegrees? (angle : Int) : Option Turn :=
  all.find? fun t => t.degrees == angle

/-- Whether width and height trade places. -/
def isSideways : Turn → Bool
  | zero => false
  | quarter => true
  | half => false
  | threeQuarter => true

theorem ofDegrees?_degrees (t : Turn) : ofDegrees? t.degrees = some t := by
  cases t <;> rfl

theorem degrees_of_ofDegrees? {angle : Int} {t : Turn} (h : ofDegrees? angle = some t) :
    t.degrees = angle := by
  simpa using List.find?_some h

end Turn

end Patchwork

/-!
# Colors

A patch is dyed with one of ten named dyes, or carries any other text for the drawing surface to
make sense of. A text that spells a dye and the dye itself are different colors.
-/

namespace Patchwork

inductive Dye where
  | red
  | orange
  | yellow
  | green
  | blue
  | purple
  | black
  | pink
  | brown
  | grey
  deriving DecidableEq, Repr

namespace Dye

def all : List Dye :=
  [red, orange, yellow, green, blue, purple, black, pink, brown, grey]

def name : Dye → String
  | red => "red"
  | orange => "orange"
  | yellow => "yellow"
  | green => "green"
  | blue => "blue"
  | purple => "purple"
  | black => "black"
  | pink => "pink"
  | brown => "brown"
  | grey => "grey"

/-- The muted shade that is painted. -/
def shade : Dye → String
  | red => "#b57c7c"
  | orange => "#d9a078"
  | yellow => "#c8b77a"
  | green => "#85a586"
  | blue => "#6a8caf"
  | purple => "#9e86a6"
  | black => "#4d4d4d"
  | pink => "#d8a6b8"
  | brown => "#a58c72"
  | grey => "#b0b0b0"

def ofName? (text : String) : Option Dye :=
  all.find? fun d => d.name == text

theorem ofName?_name (d : Dye) : ofName? d.name = some d := by
  cases d <;> decide

theorem name_of_ofName? {text : String} {d : Dye} (h : ofName? text = some d) : d.name = text := by
  simpa using List.find?_some h

end Dye

inductive Color where
  | dyed (d : Dye)
  | css (text : String)
  deriving DecidableEq, Repr

namespace Color

/-- The color that a program means by a text. -/
def ofText (text : String) : Color :=
  match Dye.ofName? text with
  | some d => dyed d
  | none => css text

def name : Color → String
  | dyed d => d.name
  | css text => text

/-- What a drawing fills the patch with. -/
def fill : Color → String
  | dyed d => d.shade
  | css text => text

theorem name_ofText (text : String) : (ofText text).name = text := by
  unfold ofText
  split
  · next h => exact Dye.name_of_ofName? h
  · rfl

end Color

end Patchwork

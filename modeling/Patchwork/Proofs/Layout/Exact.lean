import Mathlib.Tactic.Linarith
import Mathlib.Tactic.Ring
import Patchwork.Layout
import Patchwork.Rotation
import Patchwork.Scalar.Exact
import Patchwork.Tiling

/-!
# Exact layouts

With rational coordinates a turn is made of two symmetries, the exchange of rows and columns and the
exchange of left and right; a column is a row with its rows and columns exchanged; and copies are a
row of their own. So what is true of rows and of the two symmetries is true of all of these.
-/

namespace Patchwork

namespace Patch

/-- The patch where rows and columns are exchanged. -/
def transposed (p : Patch Rat) : Patch Rat :=
  ⟨p.y, p.x, p.height, p.width, p.color⟩

/-- The patch where left and right are exchanged in a box of the width. -/
def mirrored (width : Rat) (p : Patch Rat) : Patch Rat :=
  { p with x := width - (p.x + p.width) }

variable (p : Patch Rat)

theorem moved_eq (dx dy : Rat) :
    p.moved dx dy = ⟨p.x + dx, p.y + dy, p.width, p.height, p.color⟩ := by
  rfl

@[simp] theorem moved_zero : p.moved 0 0 = p := by
  rw [moved_eq, add_zero, add_zero]

@[simp] theorem transposed_transposed : p.transposed.transposed = p := by
  rfl

theorem transposed_moved (dx dy : Rat) :
    (p.moved dx dy).transposed = p.transposed.moved dy dx := by
  rfl

theorem turnedWithin_quarter (width height : Rat) :
    p.turnedWithin .quarter width height = p.transposed.mirrored width := by
  have turned : p.turnedWithin .quarter width height =
      ⟨0 * p.x - 1 * (p.y + p.height) + width, 1 * p.x + 0 * (p.y + p.height), p.height, p.width,
        p.color⟩ := rfl
  rw [turned, mirrored, transposed]
  congr 1
  · ring
  · ring

theorem turnedWithin_half (width height : Rat) :
    p.turnedWithin .half width height =
      (((p.transposed.mirrored height).transposed).mirrored width) := by
  have turned : p.turnedWithin .half width height =
      ⟨-1 * (p.x + p.width) - 0 * (p.y + p.height) + width,
        0 * (p.x + p.width) + -1 * (p.y + p.height) + height, p.width, p.height, p.color⟩ := rfl
  rw [turned, mirrored, transposed]
  congr 1
  · simp [mirrored, transposed]
    ring
  · simp [mirrored, transposed]
    ring

theorem turnedWithin_threeQuarter (width height : Rat) :
    p.turnedWithin .threeQuarter width height = (p.mirrored height).transposed := by
  have turned : p.turnedWithin .threeQuarter width height =
      ⟨0 * (p.x + p.width) - -1 * p.y, -1 * (p.x + p.width) + 0 * p.y + height, p.height, p.width,
        p.color⟩ := rfl
  rw [turned, mirrored, transposed]
  congr 1
  · ring
  · ring

section Points

/-- The point is in the closed rectangle. -/
def Covers (p : Patch Rat) (x y : Rat) : Prop :=
  p.x ≤ x ∧ x ≤ p.x + p.width ∧ p.y ≤ y ∧ y ≤ p.y + p.height

instance (p : Patch Rat) (x y : Rat) : Decidable (p.Covers x y) :=
  inferInstanceAs (Decidable (_ ∧ _ ∧ _ ∧ _))

/-- The point is in the open rectangle. -/
def Encloses (p : Patch Rat) (x y : Rat) : Prop :=
  p.x < x ∧ x < p.x + p.width ∧ p.y < y ∧ y < p.y + p.height

variable {p} {dx dy width x y : Rat}

theorem covers_moved : (p.moved dx dy).Covers x y ↔ p.Covers (x - dx) (y - dy) := by
  simp only [Covers, moved_eq]
  constructor <;> rintro ⟨left, right, top, bottom⟩ <;> refine ⟨?_, ?_, ?_, ?_⟩ <;> linarith

theorem encloses_moved : (p.moved dx dy).Encloses x y ↔ p.Encloses (x - dx) (y - dy) := by
  simp only [Encloses, moved_eq]
  constructor <;> rintro ⟨left, right, top, bottom⟩ <;> refine ⟨?_, ?_, ?_, ?_⟩ <;> linarith

theorem covers_mirrored : (p.mirrored width).Covers x y ↔ p.Covers (width - x) y := by
  simp only [Covers, mirrored]
  constructor <;> rintro ⟨left, right, top, bottom⟩ <;> refine ⟨?_, ?_, top, bottom⟩ <;> linarith

theorem encloses_mirrored : (p.mirrored width).Encloses x y ↔ p.Encloses (width - x) y := by
  simp only [Encloses, mirrored]
  constructor <;> rintro ⟨left, right, top, bottom⟩ <;> refine ⟨?_, ?_, top, bottom⟩ <;> linarith

theorem covers_transposed : p.transposed.Covers x y ↔ p.Covers y x := by
  constructor <;> exact fun ⟨left, right, top, bottom⟩ => ⟨top, bottom, left, right⟩

theorem encloses_transposed : p.transposed.Encloses x y ↔ p.Encloses y x := by
  constructor <;> exact fun ⟨left, right, top, bottom⟩ => ⟨top, bottom, left, right⟩

end Points

end Patch

namespace Design

variable (d : Design Rat)

/-- The design where rows and columns are exchanged. -/
def transposed : Design Rat :=
  ⟨d.height, d.width, d.patches.map Patch.transposed⟩

/-- The design where left and right are exchanged. -/
def mirrored : Design Rat :=
  ⟨d.width, d.height, d.patches.map (Patch.mirrored d.width)⟩

theorem turned_zero : d.turned .zero = d := by
  have same : Patch.turnedWithin .zero d.width d.height = id := rfl
  simp [turned, Turn.isSideways, same]

theorem turned_quarter : d.turned .quarter = d.transposed.mirrored := by
  simp [turned, Turn.isSideways, transposed, mirrored, Function.comp_def,
    Patch.turnedWithin_quarter]

theorem turned_half : d.turned .half = d.transposed.mirrored.transposed.mirrored := by
  simp [turned, Turn.isSideways, transposed, mirrored, Function.comp_def, Patch.turnedWithin_half]

theorem turned_threeQuarter : d.turned .threeQuarter = d.mirrored.transposed := by
  simp [turned, Turn.isSideways, transposed, mirrored, Function.comp_def,
    Patch.turnedWithin_threeQuarter]

/-- Turns add nothing to the two symmetries. -/
theorem turned_of_symmetries {P : Design Rat → Prop} (transposed : ∀ {d}, P d → P d.transposed)
    (mirrored : ∀ {d}, P d → P d.mirrored) {d : Design Rat} (t : Turn) (h : P d) :
    P (d.turned t) := by
  cases t with
  | zero =>
    rw [turned_zero]
    exact h
  | quarter =>
    rw [turned_quarter]
    exact mirrored (transposed h)
  | half =>
    rw [turned_half]
    exact mirrored (transposed (mirrored (transposed h)))
  | threeQuarter =>
    rw [turned_threeQuarter]
    exact transposed (mirrored h)

theorem beside_eq (left right : Design Rat) :
    left.beside right =
      ⟨left.width + right.width, left.height, left.patches ++ right.moved left.width 0⟩ := by
  rfl

theorem above_eq (top bottom : Design Rat) :
    top.above bottom = (top.transposed.beside bottom.transposed).transposed := by
  simp [above, beside, transposed, moved, Function.comp_def, Patch.transposed_moved]

theorem tiled_eq (count : Nat) :
    d.tiled count = ⟨d.width * count, d.height,
      (List.range count).flatMap fun (i : Nat) => d.moved ((i : Rat) * d.width) 0⟩ := by
  rfl

theorem moved_zero : d.moved 0 0 = d.patches := by
  simp [moved]

/-- One copy more stands to the right of the others. -/
theorem tiled_succ (count : Nat) : d.tiled (count + 1) = (d.tiled count).beside d := by
  simp only [tiled_eq, beside_eq, List.range_succ, List.flatMap_append, List.flatMap_singleton]
  congr 1
  · push_cast
    ring
  · rw [mul_comm]

theorem tiled_one : d.tiled 1 = d := by
  simp [tiled_eq, moved_zero]

end Design

namespace Layout

variable {base item d : Design Rat}

theorem join_horizontal_eq_ok :
    (strip .horizontal).join base item = .ok d ↔
      item.height = base.height ∧ base.beside item = d := by
  by_cases same : item.height = base.height
  · simp [join, same]
  · simp [join, same]

theorem join_vertical_eq_ok :
    (strip .vertical).join base item = .ok d ↔
      item.width = base.width ∧ base.above item = d := by
  by_cases same : item.width = base.width
  · simp [join, same]
  · simp [join, same]

end Layout

end Patchwork

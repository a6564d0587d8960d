import Patchwork.Proofs.Layout.Nesting
import Patchwork.Proofs.Layout.Turning

/-!
# Layouts under the symmetries

Where rows and columns trade places in all elements, they do so in what is laid out of them: a row
becomes a column, and an anchor moves across the diagonal. So a layout is settled under all turns
once it is settled under the exchange of left and right.
-/

namespace Patchwork

def Axis.other : Axis → Axis
  | horizontal => vertical
  | vertical => horizontal

namespace Anchor

/-- The anchor where rows and columns are exchanged. -/
def transposed : Anchor → Anchor
  | topLeft => topLeft
  | topRight => bottomLeft
  | bottomLeft => topRight
  | bottomRight => bottomRight
  | center => center

theorem offset_transposed (anchor : Anchor) (outerWidth outerHeight width height : Rat) :
    anchor.transposed.offset outerHeight outerWidth height width =
      (anchor.offset outerWidth outerHeight width height).swap := by
  cases anchor <;> rfl

end Anchor

namespace Design

theorem map_transposed_moved (d : Design Rat) (dx dy : Rat) :
    (d.moved dx dy).map Patch.transposed = d.transposed.moved dy dx := by
  simp [moved, transposed, Function.comp_def, Patch.transposed_moved]

/-- In whatever box left and right are exchanged, a design in it looks the same from the other side,
at the distance that it had from that side. -/
theorem map_mirrored_moved (d : Design Rat) (width dx dy : Rat) :
    (d.moved dx dy).map (Patch.mirrored width) = d.mirrored.moved (width - dx - d.width) dy := by
  have each (p : Patch Rat) : (p.moved dx dy).mirrored width =
      (p.mirrored d.width).moved (width - dx - d.width) dy := by
    simp only [Patch.mirrored, Patch.moved_eq]
    congr 1
    ring
  simp [moved, mirrored, Function.comp_def, each]

/-- A quarter turn of all designs exchanges rows and columns first. -/
theorem map_turned_quarter (ds : List (Design Rat)) :
    ds.map (turned .quarter) = (ds.map transposed).map mirrored := by
  rw [List.map_map]
  exact List.map_congr_left fun d _ => d.turned_quarter

theorem transposed_above (top bottom : Design Rat) :
    (top.above bottom).transposed = top.transposed.beside bottom.transposed := by
  rw [above_eq, transposed_transposed]

theorem transposed_beside (left right : Design Rat) :
    (left.beside right).transposed = left.transposed.above right.transposed := by
  rw [above_eq, transposed_transposed, transposed_transposed]

theorem transposed_under (lower : Design Rat) (anchor : Anchor) (upper : Design Rat) :
    (lower.under anchor upper).transposed =
      lower.transposed.under anchor.transposed upper.transposed := by
  simp only [under, transposed, List.map_append, map_transposed_moved, Anchor.offset_transposed,
    Prod.fst_swap, Prod.snd_swap]

end Design

namespace Layout

/-- Designs are laid out as the values that they are. -/
theorem compose_designs (layout : Layout) (ds : List (Design Rat)) :
    layout.compose (ds.map .design) = layout.joinAll ds :=
  compose_of_standsFor layout
    (List.forall₂_map_left_iff.2 (List.forall₂_same.2 fun d _ => .design d))

/-- What goes through each joining goes through all of them. -/
theorem joinAll_map {layout image : Layout} {f : Design Rat → Design Rat}
    (each : ∀ {base item d}, layout.join base item = .ok d →
      image.join (f base) (f item) = .ok (f d))
    {ds : List (Design Rat)} {d : Design Rat} (joined : layout.joinAll ds = .ok d) :
    image.joinAll (ds.map f) = .ok (f d) := by
  cases ds with
  | nil => cases joined
  | cons base ds =>
    change ds.foldlM layout.join base = .ok d at joined
    change (ds.map f).foldlM image.join (f base) = .ok (f d)
    induction ds generalizing base with
    | nil =>
      cases joined
      rfl
    | cons item ds ih =>
      obtain ⟨next, first, others⟩ := foldlM_cons_eq_ok.1 joined
      rw [List.map_cons]
      exact foldlM_cons_eq_ok.2 ⟨f next, each first, ih next others⟩

/-- Nothing keeps designs from being laid over each other. -/
theorem exists_joinAll_overlay (anchor : Anchor) (base : Design Rat) (ds : List (Design Rat)) :
    ∃ d, (overlay anchor).joinAll (base :: ds) = .ok d := by
  induction ds generalizing base with
  | nil => exact ⟨base, rfl⟩
  | cons item ds ih => exact ih (base.under anchor item)

/-- The layout where rows and columns are exchanged. -/
def transposed : Layout → Layout
  | strip axis => strip axis.other
  | overlay anchor => overlay anchor.transposed

theorem join_transposed {layout : Layout} {base item d : Design Rat}
    (joined : layout.join base item = .ok d) :
    layout.transposed.join base.transposed item.transposed = .ok d.transposed := by
  cases layout with
  | strip axis =>
    cases axis with
    | horizontal =>
      obtain ⟨level, rfl⟩ := join_horizontal_eq_ok.1 joined
      exact join_vertical_eq_ok.2 ⟨level, (Design.transposed_beside base item).symm⟩
    | vertical =>
      obtain ⟨level, rfl⟩ := join_vertical_eq_ok.1 joined
      exact join_horizontal_eq_ok.2 ⟨level, (Design.transposed_above base item).symm⟩
  | overlay anchor =>
    cases joined
    exact congrArg Except.ok (Design.transposed_under base anchor item).symm

theorem joinAll_transposed {layout : Layout} {ds : List (Design Rat)} {d : Design Rat}
    (joined : layout.joinAll ds = .ok d) :
    layout.transposed.joinAll (ds.map Design.transposed) = .ok d.transposed :=
  joinAll_map join_transposed joined

end Layout

end Patchwork

import Mathlib.Data.List.FinRange
import Mathlib.Data.Multiset.Bind
import Patchwork.Proofs.Layout.Grouping

/-!
# Grids

Rows put on top of each other, or columns put side by side: where all cells of a row are equally
high and all cells of a column equally wide, both make the same grid. Either way a cell lands behind
the columns to its left and below the rows above it, so only the order of painting is another one.
-/

namespace Patchwork

section Places

variable {J : Type} {axis : Axis} {f : J → Design Rat} {size : J → Rat}

namespace Design

/-- The members of the list, each with where it starts. -/
def places (size : J → Rat) (start : Rat) : List J → List (J × Rat)
  | [] => []
  | j :: js => (j, start) :: places size (start + size j) js

theorem blocks_map (extents : ∀ j, (f j).extent axis = size j) (start : Rat) (js : List J) :
    blocks axis start (js.map f) =
      (places size start js).map fun place => (f place.1).movedAlong axis place.2 := by
  induction js generalizing start with
  | nil => rfl
  | cons j js ih =>
    rw [List.map_cons, blocks, extents, ih]
    rfl

theorem span_map (extents : ∀ j, (f j).extent axis = size j) (js : List J) :
    span axis (js.map f) = (js.map size).sum := by
  rw [span, List.map_map]
  exact congrArg List.sum (List.map_congr_left fun j _ => extents j)

theorem patches_laidAlong_map (extents : ∀ j, (f j).extent axis = size j) (across : Rat)
    (js : List J) : (laidAlong axis across (js.map f)).patches =
      (places size 0 js).flatMap fun place => (f place.1).movedAlong axis place.2 := by
  rw [laidAlong, patches_ofExtents, blocks_map extents, List.flatMap_def]

end Design

/-- Values of one measure across the axis, by what is drawn for them. -/
theorem Layout.compose_of_level {value : J → Value Rat} {across : Rat}
    (drawn : ∀ j, (value j).toDesign? = some (f j)) (level : ∀ j, (f j).across axis = across)
    {js : List J} (filled : js ≠ []) :
    (strip axis).compose (js.map value) = .ok (.laidAlong axis across (js.map f)) := by
  have designs : (js.map value).filterMap Value.toDesign? = js.map f := by
    rw [List.filterMap_map, ← List.filterMap_eq_map]
    exact congrArg (List.filterMap · js) (funext drawn)
  refine compose_eq_ok.2 ⟨List.forall_mem_map.2 fun j _ => ?_, ?_⟩
  · rw [drawn]
    rfl
  · rw [designs]
    exact joinAll_of_level (by simpa using filled) (List.forall_mem_map.2 fun j _ => level j)

end Places

section Order

/-- Along the axis and across it, a patch can be moved in either order. -/
theorem Patch.movedAlong_other (axis : Axis) (along across : Rat) (p : Patch Rat) :
    (p.movedAlong axis along).movedAlong axis.other across =
      (p.movedAlong axis.other across).movedAlong axis along := by
  cases axis <;> simp [movedAlong, moved_eq, Axis.other]

/-- Of two loops either may be the inner one, up to the order. -/
theorem flatMap_flatMap_perm {A I J : Type} (is : List I) (js : List J) (f : I → J → List A) :
    (is.flatMap fun i => js.flatMap fun j => f i j).Perm
      (js.flatMap fun j => is.flatMap fun i => f i j) := by
  rw [← Multiset.coe_eq_coe]
  simp only [← Multiset.coe_bind]
  exact Multiset.bind_bind _ _

end Order

section Grid

variable {I J : Type} {cell : I → J → Design Rat} {across : I → Rat} {along : J → Rat}

namespace Design

variable (axis : Axis)

theorem extent_other (d : Design Rat) : d.extent axis.other = d.across axis := by
  cases axis <;> rfl

theorem across_other (d : Design Rat) : d.across axis.other = d.extent axis := by
  cases axis <;> rfl

/-- Lines of cells along the axis, put side by side across it. -/
def grid (cell : I → J → Design Rat) (across : I → Rat) (along : J → Rat) (is : List I)
    (js : List J) : Design Rat :=
  laidAlong axis.other (js.map along).sum
    (is.map fun i => laidAlong axis (across i) (js.map (cell i)))

theorem extent_other_line (i : I) (js : List J) :
    (laidAlong axis (across i) (js.map (cell i))).extent axis.other = across i := by
  rw [extent_other, laidAlong, across_ofExtents]

theorem across_other_line (alongs : ∀ i j, (cell i j).extent axis = along j) (i : I) (js : List J) :
    (laidAlong axis (across i) (js.map (cell i))).across axis.other = (js.map along).sum := by
  rw [across_other, laidAlong, extent_ofExtents, span_map (alongs i)]

theorem extent_other_grid (is : List I) (js : List J) :
    (grid axis cell across along is js).extent axis.other = (is.map across).sum := by
  rw [grid, laidAlong, extent_ofExtents, span_map fun i => extent_other_line axis i js]

theorem across_other_grid (is : List I) (js : List J) :
    (grid axis cell across along is js).across axis.other = (js.map along).sum := by
  rw [grid, laidAlong, across_ofExtents]

/-- A cell is moved to its place in the line, and with the line to the place of that. -/
theorem patches_grid (alongs : ∀ i j, (cell i j).extent axis = along j) (is : List I)
    (js : List J) : (grid axis cell across along is js).patches =
      (places across 0 is).flatMap fun line => (places along 0 js).flatMap fun place =>
        (cell line.1 place.1).patches.map fun p =>
          (p.movedAlong axis place.2).movedAlong axis.other line.2 := by
  rw [grid, patches_laidAlong_map fun i => extent_other_line axis i js]
  refine congrArg (List.flatMap · _) (funext fun line => ?_)
  rw [movedAlong_eq_map, patches_laidAlong_map (alongs line.1), List.map_flatMap]
  refine congrArg (List.flatMap · _) (funext fun place => ?_)
  rw [movedAlong_eq_map, List.map_map]
  rfl

/-- The columns of a grid show what its rows show. -/
theorem patches_grid_perm (highs : ∀ i j, (cell i j).height = across i)
    (wides : ∀ i j, (cell i j).width = along j) (is : List I) (js : List J) :
    (grid .vertical (fun j i => cell i j) along across js is).patches.Perm
      (grid .horizontal cell across along is js).patches := by
  rw [patches_grid .vertical fun j i => highs i j, patches_grid .horizontal wides]
  refine (flatMap_flatMap_perm _ _ _).trans (List.Perm.of_eq ?_)
  refine congrArg (List.flatMap · _) (funext fun line => ?_)
  refine congrArg (List.flatMap · _) (funext fun place => ?_)
  exact List.map_congr_left fun p _ => p.movedAlong_other .vertical line.2 place.2

end Design

/-- Lines of values of the right measures make a grid. -/
theorem Layout.composeGroups_grid (axis : Axis) {value : I → J → Value Rat}
    (drawn : ∀ i j, (value i j).toDesign? = some (cell i j))
    (acrosses : ∀ i j, (cell i j).across axis = across i)
    (alongs : ∀ i j, (cell i j).extent axis = along j) {is : List I} {js : List J}
    (lines : is ≠ []) (filled : js ≠ []) :
    (strip axis.other).composeGroups (strip axis) (is.map fun i => js.map (value i)) =
      .ok (.grid axis cell across along is js) := by
  let line (i : I) := Design.laidAlong axis (across i) (js.map (cell i))
  refine composeGroups_eq_ok.2 ⟨is.map line, ?_, ?_⟩
  · refine List.forall₂_map_left_iff.2 (List.forall₂_map_right_iff.2 ?_)
    exact List.forall₂_same.2 fun i _ => compose_of_level (drawn i) (acrosses i) filled
  · refine joinAll_of_level (by simpa using lines) (List.forall_mem_map.2 fun i _ => ?_)
    exact Design.across_other_line axis alongs i js

end Grid

/-- The value can be drawn, in a box with these sides. -/
def Value.Measures (v : Value Rat) (width height : Rat) : Prop :=
  ∃ d ∈ v.toDesign?, d.width = width ∧ d.height = height

instance (v : Value Rat) (width height : Rat) : Decidable (v.Measures width height) :=
  inferInstanceAs (Decidable (∃ d, d ∈ v.toDesign? ∧ _))

/-- Cells in rows and columns, at least one of each, where those of a row are equally high and those
of a column equally wide: the columns can be laid out from top to bottom and then side by side, and
the rows from left to right and then one below the other. Both have the box that is as wide as all
columns and as high as all rows, and they hold the same patches. -/
theorem grid_either_way {m n : Nat} (rows : 0 < m) (columns : 0 < n)
    {cell : Fin m → Fin n → Value Rat} {heights : Fin m → Rat} {widths : Fin n → Rat}
    (measured : ∀ i j, (cell i j).Measures (widths j) (heights i)) :
    ∃ byColumns byRows : Design Rat,
      (Layout.strip .horizontal).composeGroups (.strip .vertical)
        (List.ofFn fun j => List.ofFn fun i => cell i j) = .ok byColumns ∧
      (Layout.strip .vertical).composeGroups (.strip .horizontal)
        (List.ofFn fun i => List.ofFn fun j => cell i j) = .ok byRows ∧
      (byColumns.width = (List.ofFn widths).sum ∧ byColumns.height = (List.ofFn heights).sum) ∧
      (byRows.width = (List.ofFn widths).sum ∧ byRows.height = (List.ofFn heights).sum) ∧
      byColumns.patches.Perm byRows.patches := by
  choose shown drawn wides highs using measured
  have someRow : List.finRange m ≠ [] := by simpa using rows.ne'
  have someColumn : List.finRange n ≠ [] := by simpa using columns.ne'
  have columnsLaid := Layout.composeGroups_grid .vertical (fun j i => drawn i j)
    (fun j i => wides i j) (fun j i => highs i j) someColumn someRow
  have rowsLaid := Layout.composeGroups_grid .horizontal drawn highs wides someRow someColumn
  simp only [List.ofFn_eq_map]
  refine ⟨_, _, columnsLaid, rowsLaid, ⟨?_, ?_⟩, ⟨?_, ?_⟩, Design.patches_grid_perm highs wides _ _⟩
  · exact Design.extent_other_grid .vertical _ _
  · exact Design.across_other_grid .vertical _ _
  · exact Design.across_other_grid .horizontal _ _
  · exact Design.extent_other_grid .horizontal _ _

section Window

def paneHeight (i : Fin 2) : Rat :=
  i.val + 1

def paneWidth (j : Fin 3) : Rat :=
  2 * j.val + 1

/-- The pane in the middle of the lower row is a design of two patches, one of which sticks out. -/
def pane (i : Fin 2) (j : Fin 3) : Value Rat :=
  if i.val = 1 ∧ j.val = 1 then
    .design ⟨3, 2, [⟨0, 0, 3, 1, .dyed .blue⟩, ⟨1, 0, 5, 1, .dyed .pink⟩]⟩
  else .patch ⟨i.val, j.val, paneWidth j, paneHeight i, .dyed .red⟩

theorem window_either_way :
    (∀ i j, (pane i j).Measures (paneWidth j) (paneHeight i)) ∧
    ∃ byColumns byRows : Design Rat,
      (Layout.strip .horizontal).composeGroups (.strip .vertical)
        [[pane 0 0, pane 1 0], [pane 0 1, pane 1 1], [pane 0 2, pane 1 2]] = .ok byColumns ∧
      (Layout.strip .vertical).composeGroups (.strip .horizontal)
        [[pane 0 0, pane 0 1, pane 0 2], [pane 1 0, pane 1 1, pane 1 2]] = .ok byRows ∧
      (byColumns.width = 9 ∧ byColumns.height = 3) ∧ (byRows.width = 9 ∧ byRows.height = 3) ∧
      byColumns.patches.Perm byRows.patches := by
  have measured : ∀ i j, (pane i j).Measures (paneWidth j) (paneHeight i) := by
    decide +kernel
  have wide : (List.ofFn paneWidth).sum = 9 := by decide +kernel
  have high : (List.ofFn paneHeight).sum = 3 := by decide +kernel
  have either := grid_either_way (by decide) (by decide) measured
  rw [wide, high] at either
  exact ⟨measured, either⟩

end Window

end Patchwork

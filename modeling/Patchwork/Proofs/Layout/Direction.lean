import Patchwork.Proofs.Layout.Blocks
import Patchwork.Proofs.Layout.Symmetry

/-!
# The direction of a turned strip

A turned row is a column of the turned elements, and a turned column a row of them. Some turns also
make a strip run the other way: its elements then follow each other in the reverse order, each with
the patches that it has in the turned strip. Left and right are all that can be exchanged so, since
the exchange of rows and columns leaves the order as it is.
-/

namespace Patchwork

/-- The axis along which a strip runs after a turn. -/
def Axis.turned (t : Turn) (axis : Axis) : Axis :=
  if t.isSideways then axis.other else axis

/-- Whether the elements of a strip along the axis come to stand in the reverse order. -/
def Turn.reverses : Turn → Axis → Bool
  | zero, _ => false
  | quarter, .horizontal => false
  | quarter, .vertical => true
  | half, _ => true
  | threeQuarter, .horizontal => true
  | threeQuarter, .vertical => false

/-- One block for each design: its patches, moved to some place. -/
def Design.ArePlaced (ds : List (Design Rat)) (blocks : List (List (Patch Rat))) : Prop :=
  List.Forall₂ (fun d block => ∃ dx dy, block = d.moved dx dy) ds blocks

/-- The strip of the designs in the reverse order has the box of the design and the same blocks of
patches, one for each element, in the reverse order. -/
def Design.RunsBack (axis : Axis) (ds : List (Design Rat)) (d : Design Rat) : Prop :=
  ∃ blocks, Design.ArePlaced ds blocks ∧ d.patches = blocks.flatten ∧
    (Layout.strip axis).compose (ds.reverse.map .design) =
      .ok { d with patches := blocks.reverse.flatten }

namespace Design

section Blocks

theorem arePlaced_blocks (axis : Axis) (start : Rat) (ds : List (Design Rat)) :
    ArePlaced ds (blocks axis start ds) := by
  induction ds generalizing start with
  | nil => exact .nil
  | cons d ds ih =>
    refine .cons ?_ (ih _)
    cases axis with
    | horizontal => exact ⟨start, 0, rfl⟩
    | vertical => exact ⟨0, start, rfl⟩

/-- What takes each block of a design to one of its image does so for all designs. -/
theorem ArePlaced.map {f : Design Rat → Design Rat} {g : Patch Rat → Patch Rat}
    (moves : ∀ d dx dy, ∃ dx' dy', (d.moved dx dy).map g = (f d).moved dx' dy')
    {ds : List (Design Rat)} {blocks : List (List (Patch Rat))} (h : ArePlaced ds blocks) :
    ArePlaced (ds.map f) (blocks.map (List.map g)) := by
  refine List.forall₂_map_left_iff.2 (List.forall₂_map_right_iff.2 (h.imp ?_))
  rintro d block ⟨dx, dy, rfl⟩
  exact moves d dx dy

theorem span_map_mirrored (ds : List (Design Rat)) :
    span .horizontal (ds.map mirrored) = span .horizontal ds := by
  rw [span, List.map_map]
  rfl

/-- Seen from the other side, the last block of a row is the first one, and each is as far from the
new start as it was from the old end. -/
theorem reverse_blocks_mirrored (width start : Rat) (ds : List (Design Rat)) :
    (blocks .horizontal (width - start - span .horizontal ds)
        (ds.map mirrored).reverse).reverse =
      (blocks .horizontal start ds).map (List.map (Patch.mirrored width)) := by
  induction ds generalizing start with
  | nil => rfl
  | cons d ds ih =>
    have later : width - start - span .horizontal (d :: ds) =
        width - (start + d.width) - span .horizontal ds := by
      rw [span_cons]
      change width - start - (d.width + _) = _
      ring
    have place : width - (start + d.width) - span .horizontal ds +
        span .horizontal (ds.map mirrored).reverse = width - start - d.width := by
      rw [span_reverse, span_map_mirrored]
      ring
    have first : d.mirrored.movedAlong .horizontal (width - start - d.width) =
        (d.movedAlong .horizontal start).map (Patch.mirrored width) :=
      (d.map_mirrored_moved width start 0).symm
    rw [List.map_cons, List.reverse_cons, blocks_concat, List.reverse_append, later, ih, place,
      first]
    rfl

end Blocks

section RunsBack

variable {axis : Axis} {ds : List (Design Rat)} {d : Design Rat}

theorem runsBack_iff : RunsBack axis ds d ↔ ∃ blocks, ArePlaced ds blocks ∧
    d.patches = blocks.flatten ∧
    (Layout.strip axis).joinAll ds.reverse = .ok { d with patches := blocks.reverse.flatten } := by
  simp only [RunsBack, Layout.compose_designs]

/-- Seen from the other side, a row runs back. -/
theorem runsBack_mirrored (joined : (Layout.strip .horizontal).joinAll ds = .ok d) :
    RunsBack .horizontal (ds.map mirrored) d.mirrored := by
  obtain ⟨some, level, extent, patches⟩ := Layout.joinAll_strip_eq_ok.1 joined
  let seen := (blocks .horizontal 0 ds).map (List.map (Patch.mirrored d.width))
  have placed : ArePlaced (ds.map mirrored) seen :=
    (arePlaced_blocks _ _ _).map fun e dx dy => ⟨_, dy, e.map_mirrored_moved d.width dx dy⟩
  have start : d.width - 0 - span .horizontal ds = 0 := by
    rw [extent]
    change d.width - 0 - d.width = 0
    ring
  have turned : seen.reverse = blocks .horizontal 0 (ds.map mirrored).reverse := by
    rw [List.reverse_eq_iff, ← start, reverse_blocks_mirrored]
  refine runsBack_iff.2 ⟨seen, placed, ?_, ?_⟩
  · rw [mirrored, ← patches, List.map_flatten]
  · refine Layout.joinAll_strip_eq_ok.2 ⟨by simpa using some, ?_, ?_, ?_⟩
    · intro e member
      obtain ⟨item, within, rfl⟩ := List.mem_map.1 (List.mem_reverse.1 member)
      exact level item within
    · exact (span_reverse _).trans ((span_map_mirrored ds).trans extent)
    · rw [turned]

/-- What goes through a strip without a change in the order takes strips that run back to such. -/
theorem RunsBack.map {image : Axis} {f : Design Rat → Design Rat} {g : Patch Rat → Patch Rat}
    (moves : ∀ e dx dy, ∃ dx' dy', (e.moved dx dy).map g = (f e).moved dx' dy')
    (shows : ∀ patches, f { d with patches := patches } =
      { f d with patches := patches.map g })
    (joins : ∀ {es e}, (Layout.strip axis).joinAll es = .ok e →
      (Layout.strip image).joinAll (es.map f) = .ok (f e))
    (h : RunsBack axis ds d) : RunsBack image (ds.map f) (f d) := by
  obtain ⟨blocks, placed, patches, joined⟩ := runsBack_iff.1 h
  refine runsBack_iff.2 ⟨_, placed.map moves, ?_, ?_⟩
  · have whole : (f d).patches = d.patches.map g := congrArg Design.patches (shows d.patches)
    rw [whole, patches, List.map_flatten]
  · have image := joins joined
    rwa [shows, List.map_reverse, List.map_flatten, List.map_reverse] at image

theorem RunsBack.transposed (h : RunsBack axis ds d) :
    RunsBack axis.other (ds.map transposed) d.transposed :=
  h.map (fun e dx dy => ⟨dy, dx, e.map_transposed_moved dx dy⟩) (fun _ => rfl)
    Layout.joinAll_transposed

/-- In a column, left and right are exchanged without a change in the order. -/
theorem mirrored_above {top bottom : Design Rat} (level : bottom.width = top.width) :
    (top.above bottom).mirrored = top.mirrored.above bottom.mirrored := by
  have same : (bottom.moved 0 top.height).map (Patch.mirrored top.width) =
      bottom.mirrored.moved 0 top.height := by
    rw [map_mirrored_moved, level, sub_zero, sub_self]
  simp only [above, mirrored, List.map_append, same]

theorem joinAll_mirrored_column (joined : (Layout.strip .vertical).joinAll ds = .ok d) :
    (Layout.strip .vertical).joinAll (ds.map mirrored) = .ok d.mirrored := by
  refine Layout.joinAll_map ?_ joined
  intro base item d joined
  obtain ⟨level, rfl⟩ := Layout.join_vertical_eq_ok.1 joined
  exact Layout.join_vertical_eq_ok.2 ⟨level, (mirrored_above level).symm⟩

theorem RunsBack.mirrored (h : RunsBack .vertical ds d) :
    RunsBack .vertical (ds.map mirrored) d.mirrored :=
  h.map (fun e dx dy => ⟨_, dy, e.map_mirrored_moved d.width dx dy⟩) (fun _ => rfl)
    joinAll_mirrored_column

end RunsBack

section Turned

variable {axis : Axis} {ds : List (Design Rat)} {d : Design Rat} {t : Turn}

theorem map_turned_half (ds : List (Design Rat)) :
    ds.map (turned .half) = (((ds.map transposed).map mirrored).map transposed).map mirrored := by
  rw [List.map_map, List.map_map, List.map_map]
  exact List.map_congr_left fun d _ => d.turned_half

theorem map_turned_threeQuarter (ds : List (Design Rat)) :
    ds.map (turned .threeQuarter) = (ds.map mirrored).map transposed := by
  rw [List.map_map]
  exact List.map_congr_left fun d _ => d.turned_threeQuarter

theorem joinAll_turned (joined : (Layout.strip axis).joinAll ds = .ok d)
    (keeps : t.reverses axis = false) :
    (Layout.strip (axis.turned t)).joinAll (ds.map (turned t)) = .ok (d.turned t) := by
  cases t with
  | zero =>
    have same : turned (K := Rat) .zero = id := funext turned_zero
    rw [same, List.map_id]
    exact joined
  | quarter =>
    cases axis with
    | horizontal =>
      rw [map_turned_quarter, turned_quarter]
      exact joinAll_mirrored_column (Layout.joinAll_transposed joined)
    | vertical => cases keeps
  | half => cases keeps
  | threeQuarter =>
    cases axis with
    | horizontal => cases keeps
    | vertical =>
      rw [map_turned_threeQuarter, turned_threeQuarter]
      exact Layout.joinAll_transposed (joinAll_mirrored_column joined)

theorem runsBack_turned (joined : (Layout.strip axis).joinAll ds = .ok d)
    (reverses : t.reverses axis = true) :
    RunsBack (axis.turned t) (ds.map (turned t)) (d.turned t) := by
  cases t with
  | zero => cases reverses
  | quarter =>
    cases axis with
    | horizontal => cases reverses
    | vertical =>
      rw [map_turned_quarter, turned_quarter]
      exact runsBack_mirrored (Layout.joinAll_transposed joined)
  | half =>
    rw [map_turned_half, turned_half]
    cases axis with
    | horizontal =>
      have column := joinAll_mirrored_column (Layout.joinAll_transposed joined)
      exact runsBack_mirrored (Layout.joinAll_transposed column)
    | vertical =>
      have row := runsBack_mirrored (Layout.joinAll_transposed joined)
      exact row.transposed.mirrored
  | threeQuarter =>
    cases axis with
    | horizontal =>
      rw [map_turned_threeQuarter, turned_threeQuarter]
      exact (runsBack_mirrored joined).transposed
    | vertical => cases reverses

end Turned

end Design

/-- A turned strip is the strip of the turned elements, along the axis that the turn makes of its
own: patch for patch where the elements keep their order, and otherwise up to the order of their
blocks, which is the reverse one, in the same box. -/
theorem strip_turned {axis : Axis} {ds : List (Design Rat)} {d : Design Rat}
    (laid : (Layout.strip axis).compose (ds.map .design) = .ok d) (t : Turn) :
    (t.reverses axis = false →
      (Layout.strip (axis.turned t)).compose ((ds.map (Design.turned t)).map .design) =
        .ok (d.turned t)) ∧
    (t.reverses axis = true →
      Design.RunsBack (axis.turned t) (ds.map (Design.turned t)) (d.turned t)) := by
  rw [Layout.compose_designs] at laid
  refine ⟨fun keeps => ?_, fun reverses => Design.runsBack_turned laid reverses⟩
  rw [Layout.compose_designs]
  exact Design.joinAll_turned laid keeps

section Frieze

/-- A low design and a high one, of which a patch sticks out to the right. -/
def frieze : List (Design Rat) :=
  [⟨2, 1, [⟨0, 0, 2, 1, .dyed .red⟩]⟩,
    ⟨2, 3, [⟨0, 0, 1, 3, .dyed .blue⟩, ⟨1, 1, 2, 1, .dyed .pink⟩]⟩]

def friezeColumn : Design Rat :=
  ⟨2, 4, [⟨0, 0, 2, 1, .dyed .red⟩, ⟨0, 1, 1, 3, .dyed .blue⟩, ⟨1, 2, 2, 1, .dyed .pink⟩]⟩

/-- To the left the column falls over into a row with the low design in front, to the right into one
with the high design in front, and upside down the high design is on top. -/
theorem frieze_turned :
    (Layout.strip .vertical).compose (frieze.map .design) = .ok friezeColumn ∧
      (Layout.strip .horizontal).compose ((frieze.map (Design.turned .threeQuarter)).map .design) =
        .ok (friezeColumn.turned .threeQuarter) ∧
      Design.RunsBack .horizontal (frieze.map (Design.turned .quarter))
        (friezeColumn.turned .quarter) ∧
      Design.RunsBack .vertical (frieze.map (Design.turned .half)) (friezeColumn.turned .half) := by
  have laid : (Layout.strip .vertical).compose (frieze.map .design) = .ok friezeColumn := by
    with_unfolding_all rfl
  exact ⟨laid, (strip_turned laid .threeQuarter).1 rfl, (strip_turned laid .quarter).2 rfl,
    (strip_turned laid .half).2 rfl⟩

end Frieze

end Patchwork

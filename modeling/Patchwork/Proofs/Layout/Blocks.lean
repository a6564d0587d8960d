import Patchwork.Proofs.Layout.Nesting

/-!
# Strips as rows of blocks

Where the elements of a strip land: each along the axis from where the ones before it end, and none
across it. With exact scalars a strip is then known by what does not depend on which element is the
first: that there is one, that all are as large as the strip across the axis, that their extents add
up, and that their blocks are its patches.
-/

namespace Patchwork

section Blocks

variable {K : Type}

namespace Design

/-- How far the box reaches along the axis. -/
def extent (axis : Axis) (d : Design K) : K :=
  match axis with
  | .horizontal => d.width
  | .vertical => d.height

def across (axis : Axis) (d : Design K) : K :=
  match axis with
  | .horizontal => d.height
  | .vertical => d.width

/-- The design with these measures along the axis and across it. -/
def ofExtents (axis : Axis) (extent across : K) (patches : List (Patch K)) : Design K :=
  match axis with
  | .horizontal => ⟨extent, across, patches⟩
  | .vertical => ⟨across, extent, patches⟩

theorem ofExtents_eq_iff {axis : Axis} {extent across : K} {patches : List (Patch K)}
    {d : Design K} : ofExtents axis extent across patches = d ↔
      extent = d.extent axis ∧ across = d.across axis ∧ patches = d.patches := by
  obtain ⟨width, height, shown⟩ := d
  cases axis with
  | horizontal => simp [ofExtents, Design.extent, Design.across]
  | vertical => simp [ofExtents, Design.extent, Design.across, and_left_comm]

@[simp] theorem extent_ofExtents (axis : Axis) (extent across : K) (patches : List (Patch K)) :
    (ofExtents axis extent across patches).extent axis = extent := by
  cases axis <;> rfl

@[simp] theorem across_ofExtents (axis : Axis) (extent across : K) (patches : List (Patch K)) :
    (ofExtents axis extent across patches).across axis = across := by
  cases axis <;> rfl

@[simp] theorem patches_ofExtents (axis : Axis) (extent across : K) (patches : List (Patch K)) :
    (ofExtents axis extent across patches).patches = patches := by
  cases axis <;> rfl

variable [Scalar K]

/-- All patches moved along the axis. -/
def movedAlong (axis : Axis) (distance : K) (d : Design K) : List (Patch K) :=
  match axis with
  | .horizontal => d.moved distance 0
  | .vertical => d.moved 0 distance

/-- The patches of designs that are put side by side, the first one at `start`. -/
def blocks (axis : Axis) (start : K) : List (Design K) → List (List (Patch K))
  | [] => []
  | d :: ds => d.movedAlong axis start :: blocks axis (start + d.extent axis) ds

/-- Where the last of the designs ends. -/
def reach (axis : Axis) (start : K) (ds : List (Design K)) : K :=
  ds.foldl (fun place d => place + d.extent axis) start

end Design

variable [Scalar K]

namespace Layout

variable {axis : Axis} {base d : Design K}

theorem join_strip (base item : Design K) :
    (strip axis).join base item =
      if item.across axis == base.across axis then
        .ok (.ofExtents axis (base.extent axis + item.extent axis) (base.across axis)
          (base.patches ++ item.movedAlong axis (base.extent axis)))
      else .error (.unequalSides axis (base.across axis) (item.across axis)) := by
  cases axis <;> rfl

/-- Behind a first element, a strip goes on with the blocks of the others. -/
theorem foldlM_join_strip_eq_ok {ds : List (Design K)} :
    ds.foldlM (strip axis).join base = .ok d ↔
      (∀ e ∈ ds, (e.across axis == base.across axis) = true) ∧
      Design.ofExtents axis (Design.reach axis (base.extent axis) ds) (base.across axis)
        (base.patches ++ (Design.blocks axis (base.extent axis) ds).flatten) = d := by
  induction ds generalizing base with
  | nil =>
    have whole : Design.ofExtents axis (base.extent axis) (base.across axis) base.patches = base :=
      Design.ofExtents_eq_iff.2 ⟨rfl, rfl, rfl⟩
    simp [Design.blocks, Design.reach, whole, pure, Except.pure]
  | cons e ds ih =>
    rw [foldlM_cons_eq_ok, join_strip, List.forall_mem_cons]
    by_cases level : (e.across axis == base.across axis) = true
    · simp [level, ih, Design.blocks, Design.reach]
    · simp [level]

end Layout

end Blocks

namespace Patch

def movedAlong (axis : Axis) (distance : Rat) (p : Patch Rat) : Patch Rat :=
  match axis with
  | .horizontal => p.moved distance 0
  | .vertical => p.moved 0 distance

theorem movedAlong_movedAlong (axis : Axis) (first second : Rat) (p : Patch Rat) :
    (p.movedAlong axis first).movedAlong axis second = p.movedAlong axis (first + second) := by
  cases axis <;> simp [movedAlong, moved_eq, add_assoc]

end Patch

namespace Design

variable {axis : Axis}

theorem movedAlong_zero (axis : Axis) (d : Design Rat) : d.movedAlong axis 0 = d.patches := by
  cases axis <;> exact d.moved_zero

theorem movedAlong_eq_map (distance : Rat) (d : Design Rat) :
    d.movedAlong axis distance = d.patches.map (Patch.movedAlong axis distance) := by
  cases axis <;> rfl

/-- How far designs reach together. -/
def span (axis : Axis) (ds : List (Design Rat)) : Rat :=
  (ds.map (extent axis)).sum

theorem span_cons (d : Design Rat) (ds : List (Design Rat)) :
    span axis (d :: ds) = d.extent axis + span axis ds := by
  rw [span, List.map_cons, List.sum_cons, span]

theorem span_append (ds es : List (Design Rat)) :
    span axis (ds ++ es) = span axis ds + span axis es := by
  rw [span, List.map_append, List.sum_append, span, span]

theorem span_reverse (ds : List (Design Rat)) : span axis ds.reverse = span axis ds := by
  rw [span, List.map_reverse, List.sum_reverse, span]

theorem reach_eq_add_span (start : Rat) (ds : List (Design Rat)) :
    reach axis start ds = start + span axis ds := by
  induction ds generalizing start with
  | nil => exact (add_zero start).symm
  | cons d ds ih =>
    rw [span_cons, ← add_assoc]
    exact ih (start + d.extent axis)

theorem map_movedAlong_blocks (start distance : Rat) (ds : List (Design Rat)) :
    (blocks axis start ds).map (List.map (Patch.movedAlong axis distance)) =
      blocks axis (start + distance) ds := by
  induction ds generalizing start with
  | nil => rfl
  | cons d ds ih =>
    have first : (d.movedAlong axis start).map (Patch.movedAlong axis distance) =
        d.movedAlong axis (start + distance) := by
      simp only [movedAlong_eq_map, List.map_map, Function.comp_def, Patch.movedAlong_movedAlong]
    rw [blocks, List.map_cons, first, ih, add_right_comm]
    rfl

theorem blocks_append (start : Rat) (ds es : List (Design Rat)) :
    blocks axis start (ds ++ es) =
      blocks axis start ds ++ blocks axis (start + span axis ds) es := by
  induction ds generalizing start with
  | nil => simp [blocks, span]
  | cons d ds ih =>
    rw [List.cons_append, blocks, ih, span_cons, ← add_assoc]
    rfl

theorem blocks_concat (start : Rat) (ds : List (Design Rat)) (d : Design Rat) :
    blocks axis start (ds ++ [d]) =
      blocks axis start ds ++ [d.movedAlong axis (start + span axis ds)] := by
  rw [blocks_append]
  rfl

end Design

/-- What a strip is, said of all its elements alike. -/
theorem Layout.joinAll_strip_eq_ok {axis : Axis} {ds : List (Design Rat)} {d : Design Rat} :
    (strip axis).joinAll ds = .ok d ↔
      ds ≠ [] ∧ (∀ e ∈ ds, e.across axis = d.across axis) ∧ Design.span axis ds = d.extent axis ∧
      (Design.blocks axis 0 ds).flatten = d.patches := by
  cases ds with
  | nil => simp [joinAll]
  | cons first ds =>
    have start : (0 : Rat) + first.extent axis = first.extent axis := zero_add _
    change ds.foldlM (strip axis).join first = .ok d ↔ _
    rw [foldlM_join_strip_eq_ok, Design.ofExtents_eq_iff, Design.reach_eq_add_span, Design.blocks,
      start, Design.movedAlong_zero, Design.span_cons, List.flatten_cons, List.forall_mem_cons]
    simp only [beq_iff_eq, ne_eq, reduceCtorEq, not_false_eq_true, true_and]
    constructor
    · rintro ⟨level, extent, across, patches⟩
      rw [across] at level
      exact ⟨⟨across, level⟩, extent, patches⟩
    · rintro ⟨⟨across, level⟩, extent, patches⟩
      rw [← across] at level
      exact ⟨level, extent, across, patches⟩

end Patchwork

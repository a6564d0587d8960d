import Patchwork.Proofs.Layout.Blocks
import Patchwork.Proofs.Layout.Symmetry

/-!
# Strips in parts

A strip may be laid out at once or group by group: with exact scalars a strip of strips along the
same axis is the strip of all their elements, and can be laid out if and only if that one can. A
strip in which all elements are the same is what copying makes of a design.
-/

namespace Patchwork

namespace Layout

section Values

variable {K : Type} [Scalar K] {layout : Layout}

theorem element_eq_ok {v : Value K} {d : Design K} :
    layout.element v = .ok d ↔ v.toDesign? = some d := by
  rw [element]
  cases v.toDesign? with
  | none => simp only [reduceCtorEq]
  | some e => rw [Except.ok.injEq, Option.some.injEq]

theorem push_eq_ok {base d : Design K} {v : Value K} :
    layout.push base v = .ok d ↔
      ∃ item, v.toDesign? = some item ∧ layout.join base item = .ok d := by
  rw [push, bind_eq_ok]
  exact exists_congr fun item => and_congr_left fun _ => element_eq_ok

/-- Pushing is joining, where everything can be drawn. -/
theorem foldlM_push_eq_ok {vs : List (Value K)} {base d : Design K} :
    vs.foldlM layout.push base = .ok d ↔ (∀ v ∈ vs, v.toDesign?.isSome) ∧
      (vs.filterMap Value.toDesign?).foldlM layout.join base = .ok d := by
  induction vs generalizing base with
  | nil => simp
  | cons v vs ih =>
    rw [foldlM_cons_eq_ok, List.forall_mem_cons]
    simp only [push_eq_ok, ih]
    cases drawn : v.toDesign? with
    | none => simp
    | some item =>
      rw [List.filterMap_cons_some drawn, foldlM_cons_eq_ok]
      constructor
      · rintro ⟨next, ⟨_, ⟨⟩, joined⟩, others, more⟩
        exact ⟨⟨rfl, others⟩, next, joined, more⟩
      · rintro ⟨⟨-, others⟩, next, joined, more⟩
        exact ⟨next, ⟨item, rfl, joined⟩, others, more⟩

/-- Each group is laid out on its own, and what comes of the groups is laid out in turn. -/
def composeGroups (outer inner : Layout) (groups : List (List (Value K))) :
    Except (Fault K) (Design K) := do
  let ds ← groups.mapM inner.compose
  outer.compose (ds.map .design)

end Values

variable {layout : Layout}

theorem compose_eq_ok {vs : List (Value Rat)} {d : Design Rat} :
    layout.compose vs = .ok d ↔ (∀ v ∈ vs, v.toDesign?.isSome) ∧
      layout.joinAll (vs.filterMap Value.toDesign?) = .ok d := by
  cases vs with
  | nil => simp [compose, joinAll]
  | cons v vs =>
    rw [compose, bind_eq_ok, List.forall_mem_cons]
    cases drawn : v.toDesign? with
    | none => simp [element_eq_ok, drawn]
    | some item =>
      rw [List.filterMap_cons_some drawn]
      simp [element_eq_ok, drawn, foldlM_push_eq_ok, joinAll]

theorem composeGroups_eq_ok {outer inner : Layout} {groups : List (List (Value Rat))}
    {d : Design Rat} : outer.composeGroups inner groups = .ok d ↔
      ∃ ds, List.Forall₂ (fun group e => inner.compose group = .ok e) groups ds ∧
        outer.joinAll ds = .ok d := by
  rw [composeGroups, bind_eq_ok]
  simp only [mapM_eq_ok, compose_designs]

end Layout

namespace Design

/-- The strip of the designs, where they are all as large across the axis. -/
def laidAlong (axis : Axis) (across : Rat) (ds : List (Design Rat)) : Design Rat :=
  ofExtents axis (span axis ds) across (blocks axis 0 ds).flatten

end Design

namespace Layout

variable {axis : Axis} {parts : List (List (Design Rat))} {ds : List (Design Rat)} {d : Design Rat}

theorem joinAll_of_level {across : Rat} (some : ds ≠ [])
    (level : ∀ e ∈ ds, e.across axis = across) :
    (strip axis).joinAll ds = .ok (.laidAlong axis across ds) := by
  refine joinAll_strip_eq_ok.2 ⟨some, ?_, ?_, ?_⟩
  · intro e member
    rw [Design.laidAlong, Design.across_ofExtents]
    exact level e member
  · rw [Design.laidAlong, Design.extent_ofExtents]
  · rw [Design.laidAlong, Design.patches_ofExtents]

/-- A strip that is moved along has its blocks further on. -/
theorem movedAlong_of_joinAll (joined : (strip axis).joinAll ds = .ok d) (start : Rat) :
    d.movedAlong axis start = (Design.blocks axis start ds).flatten := by
  obtain ⟨-, -, -, patches⟩ := joinAll_strip_eq_ok.1 joined
  rw [Design.movedAlong_eq_map, ← patches, List.map_flatten, Design.map_movedAlong_blocks, zero_add]

/-- The designs are the strips of the parts, part by part. -/
def AreStrips (axis : Axis) (parts : List (List (Design Rat))) (ds : List (Design Rat)) : Prop :=
  List.Forall₂ (fun part d => (strip axis).joinAll part = .ok d) parts ds

theorem AreStrips.ne_nil_iff (strips : AreStrips axis parts ds) : ds ≠ [] ↔ parts.flatten ≠ [] := by
  cases strips with
  | nil => exact Iff.rfl
  | cons first _ =>
    obtain ⟨some, -⟩ := joinAll_strip_eq_ok.1 first
    simp [some]

theorem AreStrips.span_eq (strips : AreStrips axis parts ds) :
    Design.span axis ds = Design.span axis parts.flatten := by
  induction strips with
  | nil => rfl
  | cons first _ ih =>
    obtain ⟨-, -, extent, -⟩ := joinAll_strip_eq_ok.1 first
    rw [Design.span_cons, List.flatten_cons, Design.span_append, extent, ih]

theorem AreStrips.blocks_eq (strips : AreStrips axis parts ds) (start : Rat) :
    (Design.blocks axis start ds).flatten = (Design.blocks axis start parts.flatten).flatten := by
  induction strips generalizing start with
  | nil => rfl
  | cons first _ ih =>
    obtain ⟨-, -, extent, -⟩ := joinAll_strip_eq_ok.1 first
    rw [List.flatten_cons, Design.blocks_append, List.flatten_append, extent,
      ← movedAlong_of_joinAll first, ← ih]
    rfl

theorem AreStrips.level_iff (strips : AreStrips axis parts ds) (across : Rat) :
    (∀ e ∈ ds, e.across axis = across) ↔ ∀ e ∈ parts.flatten, e.across axis = across := by
  induction strips with
  | nil => exact Iff.rfl
  | @cons part d parts ds first _ ih =>
    obtain ⟨some, level, -⟩ := joinAll_strip_eq_ok.1 first
    have whole : d.across axis = across ↔ ∀ e ∈ part, e.across axis = across := by
      constructor
      · intro same e member
        exact (level e member).trans same
      · intro same
        obtain ⟨e, member⟩ := List.exists_mem_of_ne_nil part some
        exact (level e member).symm.trans (same e member)
    rw [List.forall_mem_cons, List.flatten_cons, List.forall_mem_append, whole, ih]

/-- In which parts a strip is laid out makes no difference to it. -/
theorem AreStrips.joinAll_eq_ok (strips : AreStrips axis parts ds) :
    (strip axis).joinAll ds = .ok d ↔ (strip axis).joinAll parts.flatten = .ok d := by
  rw [joinAll_strip_eq_ok, joinAll_strip_eq_ok, strips.ne_nil_iff, strips.level_iff, strips.span_eq,
    strips.blocks_eq]

/-- What fits into a strip fits into the parts of it. -/
theorem exists_areStrips (some : ∀ part ∈ parts, part ≠ [])
    (joined : (strip axis).joinAll parts.flatten = .ok d) : ∃ ds, AreStrips axis parts ds := by
  obtain ⟨-, level, -⟩ := joinAll_strip_eq_ok.1 joined
  refine ⟨parts.map (Design.laidAlong axis (d.across axis)), ?_⟩
  refine List.forall₂_map_right_iff.2 (List.forall₂_same.2 fun part member => ?_)
  exact joinAll_of_level (some part member) fun e within =>
    level e (List.mem_flatten.2 ⟨part, member, within⟩)

end Layout

/-- Groups of values, none of them empty: laid out along an axis group by group, and then as the
designs that come of it along the same axis, they can be laid out if and only if all their members
can be at once, and the design is the same, with its box and its patches in order. -/
theorem strip_of_groups (axis : Axis) {groups : List (List (Value Rat))}
    (some : ∀ group ∈ groups, group ≠ []) (d : Design Rat) :
    (Layout.strip axis).composeGroups (.strip axis) groups = .ok d ↔
      (Layout.strip axis).compose groups.flatten = .ok d := by
  let parts := groups.map (List.filterMap Value.toDesign?)
  have grouped : (Layout.strip axis).composeGroups (.strip axis) groups = .ok d ↔
      (∀ group ∈ groups, ∀ v ∈ group, v.toDesign?.isSome) ∧
        ∃ ds, Layout.AreStrips axis parts ds ∧ (Layout.strip axis).joinAll ds = .ok d := by
    rw [Layout.composeGroups_eq_ok]
    simp only [Layout.compose_eq_ok, List.forall₂_and_left, Layout.AreStrips, parts,
      List.forall₂_map_left_iff, and_assoc, exists_and_left]
  rw [grouped, Layout.compose_eq_ok, List.forall_mem_flatten, List.filterMap_flatten]
  refine and_congr_right fun drawable => ?_
  constructor
  · rintro ⟨ds, strips, joined⟩
    exact strips.joinAll_eq_ok.1 joined
  · intro joined
    have full : ∀ part ∈ parts, part ≠ [] := by
      refine List.forall_mem_map.2 fun group member => ?_
      obtain ⟨v, within⟩ := List.exists_mem_of_ne_nil group (some group member)
      obtain ⟨e, drawn⟩ := Option.isSome_iff_exists.1 (drawable group member v within)
      exact List.ne_nil_of_mem (List.mem_filterMap.2 ⟨v, within, drawn⟩)
    obtain ⟨ds, strips⟩ := Layout.exists_areStrips full joined
    exact ⟨ds, strips, strips.joinAll_eq_ok.2 joined⟩

section Edging

/-- A patch and a design of two; then, on its own, a design of which a patch sticks out. -/
def edging : List (List (Value Rat)) :=
  [[.patch ⟨7, 7, 1, 2, .dyed .red⟩,
      .design ⟨3, 2, [⟨0, 0, 1, 2, .dyed .blue⟩, ⟨1, 0, 2, 2, .dyed .pink⟩]⟩],
    [.design ⟨1, 2, [⟨0, -1, 1, 4, .dyed .green⟩]⟩]]

def edgingRow : Design Rat :=
  ⟨5, 2, [⟨0, 0, 1, 2, .dyed .red⟩, ⟨1, 0, 1, 2, .dyed .blue⟩, ⟨2, 0, 2, 2, .dyed .pink⟩,
    ⟨4, -1, 1, 4, .dyed .green⟩]⟩

/-- A row in groups as at once, and a column in neither way. -/
theorem edging_of_groups :
    (∀ group ∈ edging, group ≠ []) ∧
      (Layout.strip .horizontal).composeGroups (.strip .horizontal) edging = .ok edgingRow ∧
      ∀ d, (Layout.strip .vertical).composeGroups (.strip .vertical) edging ≠ .ok d := by
  have some : ∀ group ∈ edging, group ≠ [] := by
    decide
  have row : (Layout.strip .horizontal).compose edging.flatten = .ok edgingRow := by
    with_unfolding_all rfl
  have column : (Layout.strip .vertical).compose edging.flatten =
      .error (.unequalSides .vertical 1 3) := by
    with_unfolding_all rfl
  refine ⟨some, (strip_of_groups .horizontal some edgingRow).2 row, fun d laid => ?_⟩
  have laid := (strip_of_groups .vertical some d).1 laid
  rw [column] at laid
  cases laid

end Edging

section Copies

variable {count : Nat} {p : Patch Rat} {v : Value Rat} {d : Design Rat}

theorem compose_replicate (some : count ≠ 0) (drawn : v.toDesign? = Option.some d) :
    (Layout.strip .horizontal).compose (List.replicate count v) = .ok (d.tiled count) := by
  refine Layout.compose_eq_ok.2 ⟨List.forall_mem_replicate.2 (Or.inr ?_), ?_⟩
  · rw [drawn]
    rfl
  · rw [List.filterMap_replicate_of_some drawn]
    exact joinAll_replicate some d

/-- The first tile is where the patch was. -/
theorem head?_tiled (some : count ≠ 0) : (p.tiled count).patches.head? = Option.some p := by
  obtain ⟨more, rfl⟩ := Nat.exists_eq_succ_of_ne_zero some
  have first : p.moved (Scalar.ofNat 0 * p.width) 0 = p := by
    change p.moved (0 * p.width) 0 = p
    rw [zero_mul, Patch.moved_zero]
  rw [Patch.tiled, List.range_succ_eq_map, List.map_cons, List.head?_cons, first]

/-- So a patch that is elsewhere is not tiled as one at the origin. -/
theorem eq_unplaced_of_tiled (some : count ≠ 0)
    (same : p.tiled count = (Design.ofPatch p).tiled count) :
    p = .unplaced p.width p.height p.color := by
  let unplaced := Patch.unplaced p.width p.height p.color
  have framed : unplaced.tiled count = (Design.ofPatch p).tiled count :=
    tiled_ofPatch (p := unplaced) count rfl rfl
  have heads := congrArg (fun row => row.patches.head?) (same.trans framed.symm)
  simp only [head?_tiled some] at heads
  exact Option.some.inj heads

end Copies

/-- Copying is laying out a row of the same value, with the same box and the same patches in order,
for a design and for a patch that no layout has placed. It is so for no other value, since a patch
is copied where it is, and a row starts at the origin. -/
theorem copies_in_a_row {count : Nat} (positive : 1 ≤ count) (v : Value Rat) :
    (∃ d, v.StandsFor d) ↔ ∃ row, v.tiled count = .ok row ∧
      (Layout.strip .horizontal).compose (List.replicate count v) = .ok row := by
  have some : count ≠ 0 := Nat.ne_of_gt positive
  constructor
  · rintro ⟨d, stands⟩
    exact ⟨_, tiled_of_standsFor some stands,
      compose_replicate some (toDesign?_of_standsFor stands)⟩
  · rintro ⟨row, tiled, composed⟩
    unfold Value.tiled at tiled
    rw [if_neg some] at tiled
    cases v with
    | patch p =>
      rw [compose_replicate some rfl] at composed
      have same := Except.ok.inj (tiled.trans composed.symm)
      rw [eq_unplaced_of_tiled some same]
      exact ⟨_, .patch _ rfl rfl⟩
    | design d => exact ⟨d, .design d⟩
    | _ => cases tiled

section Bricks

def brick : Value Rat :=
  .patch (.unplaced 3 1 (.dyed .red))

/-- The same patch, moved by some layout before. -/
def strayBrick : Value Rat :=
  .patch ⟨3, 0, 3, 1, .dyed .red⟩

theorem bricks_in_a_row : 1 ≤ 4 ∧
    (∃ row, brick.tiled 4 = .ok row ∧
      (Layout.strip .horizontal).compose (List.replicate 4 brick) = .ok row) ∧
    ¬∃ row, strayBrick.tiled 4 = .ok row ∧
      (Layout.strip .horizontal).compose (List.replicate 4 strayBrick) = .ok row := by
  have four : 1 ≤ 4 := by decide
  refine ⟨four, (copies_in_a_row four brick).1 ⟨_, .patch _ rfl rfl⟩, ?_⟩
  rw [← copies_in_a_row four strayBrick]
  rintro ⟨d, stands⟩
  cases stands with
  | patch _ x _ => exact absurd x (by decide)

end Bricks

end Patchwork

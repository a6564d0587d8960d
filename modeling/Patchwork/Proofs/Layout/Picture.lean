import Patchwork.Proofs.Layout.Nesting

/-!
# Pictures

What is seen of a design: at each point the color of the last patch that covers it. What is seen of
a nesting is said without patches, from what is seen of its parts. Both agree at every point, also
where an overlay sticks out over its neighbours.
-/

namespace Patchwork

/-- What is seen of a list of patches at a point. -/
def Patch.seen (patches : List (Patch Rat)) (x y : Rat) : Option Color :=
  (patches.reverse.find? fun p => p.Covers x y).map Patch.color

/-- A box and what is seen in it and around it. -/
structure Scene where
  width : Rat
  height : Rat
  picture : Rat → Rat → Option Color

def Design.scene (d : Design Rat) : Scene :=
  ⟨d.width, d.height, Patch.seen d.patches⟩

namespace Turn

/-- The point of a box that comes to lie at a point when the box is turned clockwise and put at the
origin. -/
def back (t : Turn) (width height x y : Rat) : Rat × Rat :=
  match t with
  | zero => (x, y)
  | quarter => (y, height - x)
  | half => (width - x, height - y)
  | threeQuarter => (width - y, x)

end Turn

namespace Scene

def blank : Scene :=
  ⟨0, 0, fun _ _ => none⟩

/-- How far a scene reaches along the axis. -/
def extent (axis : Axis) (s : Scene) : Rat :=
  match axis with
  | .horizontal => s.width
  | .vertical => s.height

def across (axis : Axis) (s : Scene) : Rat :=
  match axis with
  | .horizontal => s.height
  | .vertical => s.width

/-- The scene with these measures along the axis and across it. -/
def ofExtents (axis : Axis) (extent across : Rat) (picture : Rat → Rat → Option Color) : Scene :=
  match axis with
  | .horizontal => ⟨extent, across, picture⟩
  | .vertical => ⟨across, extent, picture⟩

def turned (t : Turn) (s : Scene) : Scene where
  width := if t.isSideways then s.height else s.width
  height := if t.isSideways then s.width else s.height
  picture x y :=
    let point := t.back s.width s.height x y
    s.picture point.1 point.2

/-- Rows and columns trade places. -/
def transposed (s : Scene) : Scene :=
  ⟨s.height, s.width, fun x y => s.picture y x⟩

/-- Left and right trade places. -/
def mirrored (s : Scene) : Scene :=
  ⟨s.width, s.height, fun x y => s.picture (s.width - x) y⟩

/-- A scene and the place of its top left corner. -/
structure Placed where
  x : Rat
  y : Rat
  scene : Scene

def Placed.picture (p : Placed) (x y : Rat) : Option Color :=
  p.scene.picture (x - p.x) (y - p.y)

/-- What is seen of placed scenes: the last one that has anything at the point is in front. -/
def shown (placed : List Placed) (x y : Rat) : Option Color :=
  placed.reverse.findSome? fun p => p.picture x y

def along (axis : Axis) (start : Rat) (s : Scene) : Placed :=
  match axis with
  | .horizontal => ⟨start, 0, s⟩
  | .vertical => ⟨0, start, s⟩

/-- Each scene is put where the ones before it end, the first one at `start`. -/
def inStrip (axis : Axis) (start : Rat) : List Scene → List Placed
  | [] => []
  | s :: ss => along axis start s :: inStrip axis (start + s.extent axis) ss

/-- The scene is anchored in a box. -/
def anchored (anchor : Anchor) (width height : Rat) (s : Scene) : Placed :=
  let place := anchor.offset width height s.width s.height
  ⟨place.1, place.2, s⟩

end Scene

/-- The scene of elements that are laid out. -/
def Layout.scene : Layout → List Scene → Scene
  | _, [] => .blank
  | .strip axis, s :: ss =>
    .ofExtents axis ((s :: ss).map (Scene.extent axis)).sum (s.across axis)
      (Scene.shown (Scene.inStrip axis 0 (s :: ss)))
  | .overlay anchor, s :: ss =>
    ⟨s.width, s.height, Scene.shown ((s :: ss).map (Scene.anchored anchor s.width s.height))⟩

namespace Nesting

mutual

/-- What is seen of a nesting, from what is seen of its parts. -/
def scene : Nesting Rat → Scene
  | .value v => (v.toDesign?.map Design.scene).getD .blank
  | .arranged layout items => layout.scene (scenes items)
  | .turned t target => target.scene.turned t
  | .tiled count target => (Layout.strip .horizontal).scene (List.replicate count target.scene)

def scenes : List (Nesting Rat) → List Scene
  | [] => []
  | item :: items => item.scene :: scenes items

end

end Nesting

section Seen

variable {ps qs : List (Patch Rat)} {x y : Rat}

open Patch (seen)

theorem seen_append : seen (ps ++ qs) x y = (seen qs x y).or (seen ps x y) := by
  rw [seen, List.reverse_append, List.find?_append, Option.map_or]
  rfl

/-- Patches that keep their colors are seen where they come from. -/
theorem seen_map {f : Patch Rat → Patch Rat} {x' y' : Rat}
    (covers : ∀ p, (f p).Covers x y ↔ p.Covers x' y') (colored : ∀ p, (f p).color = p.color) :
    seen (ps.map f) x y = seen ps x' y' := by
  simp [seen, ← List.map_reverse, List.find?_map, Function.comp_def, covers, colored]

theorem seen_moved (d : Design Rat) (dx dy : Rat) :
    seen (d.moved dx dy) x y = seen d.patches (x - dx) (y - dy) :=
  seen_map (fun _ => Patch.covers_moved) fun _ => rfl

theorem seen_transposed (d : Design Rat) :
    seen d.transposed.patches x y = seen d.patches y x :=
  seen_map (fun _ => Patch.covers_transposed) fun _ => rfl

theorem seen_mirrored (d : Design Rat) :
    seen d.mirrored.patches x y = seen d.patches (d.width - x) y :=
  seen_map (fun _ => Patch.covers_mirrored) fun _ => rfl

end Seen

section Scenes

open Scene (Placed shown along inStrip anchored)

theorem scene_transposed (d : Design Rat) : d.transposed.scene = d.scene.transposed := by
  have picture : Patch.seen d.transposed.patches = fun x y => Patch.seen d.patches y x := by
    funext x y
    exact seen_transposed d
  rw [Design.scene, picture]
  rfl

theorem scene_mirrored (d : Design Rat) : d.mirrored.scene = d.scene.mirrored := by
  have picture : Patch.seen d.mirrored.patches =
      fun x y => Patch.seen d.patches (d.width - x) y := by
    funext x y
    exact seen_mirrored d
  rw [Design.scene, picture]
  rfl

/-- A turn of the patches turns what is seen of them. -/
theorem scene_turned (t : Turn) (d : Design Rat) : (d.turned t).scene = d.scene.turned t := by
  cases t with
  | zero =>
    rw [Design.turned_zero]
    rfl
  | quarter =>
    rw [Design.turned_quarter, scene_mirrored, scene_transposed]
    rfl
  | half =>
    rw [Design.turned_half, scene_mirrored, scene_transposed, scene_mirrored, scene_transposed]
    rfl
  | threeQuarter =>
    rw [Design.turned_threeQuarter, scene_transposed, scene_mirrored]
    rfl

theorem shown_cons (p : Placed) (ps : List Placed) (x y : Rat) :
    shown (p :: ps) x y = (shown ps x y).or (p.picture x y) := by
  rw [shown, List.reverse_cons, List.findSome?_append]
  congr 1
  simp

theorem picture_along_zero (axis : Axis) (s : Scene) : (along axis 0 s).picture = s.picture := by
  funext x y
  cases axis <;> simp [Placed.picture, along]

variable {axis : Axis} {base item d : Design Rat}

theorem picture_join_strip (joined : (Layout.strip axis).join base item = .ok d) (x y : Rat) :
    d.scene.picture x y =
      ((along axis (base.scene.extent axis) item.scene).picture x y).or
        (base.scene.picture x y) := by
  cases axis with
  | horizontal =>
    obtain ⟨-, rfl⟩ := Layout.join_horizontal_eq_ok.1 joined
    exact seen_append.trans (congrArg (Option.or · _) (seen_moved item base.width 0))
  | vertical =>
    obtain ⟨-, rfl⟩ := Layout.join_vertical_eq_ok.1 joined
    exact seen_append.trans (congrArg (Option.or · _) (seen_moved item 0 base.height))

theorem box_join_strip (joined : (Layout.strip axis).join base item = .ok d) :
    d.scene.extent axis = base.scene.extent axis + item.scene.extent axis ∧
      d.scene.across axis = base.scene.across axis := by
  cases axis with
  | horizontal =>
    obtain ⟨-, rfl⟩ := Layout.join_horizontal_eq_ok.1 joined
    exact ⟨rfl, rfl⟩
  | vertical =>
    obtain ⟨-, rfl⟩ := Layout.join_vertical_eq_ok.1 joined
    exact ⟨rfl, rfl⟩

/-- The elements that are still to be joined are seen in front of those that are. -/
theorem picture_foldlM_strip {ds : List (Design Rat)}
    (joined : ds.foldlM (Layout.strip axis).join base = .ok d) (x y : Rat) :
    d.scene.picture x y =
      (shown (inStrip axis (base.scene.extent axis) (ds.map Design.scene)) x y).or
        (base.scene.picture x y) := by
  induction ds generalizing base with
  | nil =>
    cases joined
    rfl
  | cons item ds ih =>
    obtain ⟨next, first, others⟩ := foldlM_cons_eq_ok.1 joined
    rw [ih others, picture_join_strip first, (box_join_strip first).1, List.map_cons, inStrip,
      shown_cons, Option.or_assoc]

theorem box_foldlM_strip {ds : List (Design Rat)}
    (joined : ds.foldlM (Layout.strip axis).join base = .ok d) :
    d.scene.extent axis =
        base.scene.extent axis + ((ds.map Design.scene).map (Scene.extent axis)).sum ∧
      d.scene.across axis = base.scene.across axis := by
  induction ds generalizing base with
  | nil =>
    cases joined
    exact ⟨(add_zero _).symm, rfl⟩
  | cons item ds ih =>
    obtain ⟨next, first, others⟩ := foldlM_cons_eq_ok.1 joined
    obtain ⟨extent, across⟩ := box_join_strip first
    obtain ⟨extents, same⟩ := ih others
    refine ⟨?_, same.trans across⟩
    rw [extents, extent, List.map_cons, List.map_cons, List.sum_cons, add_assoc]

theorem ofExtents_self (axis : Axis) (s : Scene) :
    Scene.ofExtents axis (s.extent axis) (s.across axis) s.picture = s := by
  cases axis <;> rfl

theorem scene_joinAll_strip {ds : List (Design Rat)}
    (joined : (Layout.strip axis).joinAll ds = .ok d) :
    d.scene = (Layout.strip axis).scene (ds.map Design.scene) := by
  cases ds with
  | nil => cases joined
  | cons base ds =>
    obtain ⟨extent, across⟩ := box_foldlM_strip joined
    have picture : d.scene.picture = shown (inStrip axis 0 ((base :: ds).map Design.scene)) := by
      funext x y
      rw [picture_foldlM_strip joined, List.map_cons, inStrip, shown_cons, picture_along_zero,
        zero_add]
    rw [← ofExtents_self axis d.scene, extent, across, picture]
    rfl

theorem offset_self (anchor : Anchor) (width height : Rat) :
    anchor.offset width height width height = (0, 0) := by
  cases anchor with
  | topLeft => rfl
  | topRight => exact Prod.ext (sub_self width) rfl
  | bottomLeft => exact Prod.ext rfl (sub_self height)
  | bottomRight => exact Prod.ext (sub_self width) (sub_self height)
  | center => exact Prod.ext (sub_self (width / 2)) (sub_self (height / 2))

variable {anchor : Anchor}

theorem picture_anchored_self (s : Scene) :
    (anchored anchor s.width s.height s).picture = s.picture := by
  funext x y
  rw [anchored, Placed.picture, offset_self, sub_zero, sub_zero]

theorem picture_under (base item : Design Rat) (x y : Rat) :
    (base.under anchor item).scene.picture x y =
      ((anchored anchor base.width base.height item.scene).picture x y).or
        (base.scene.picture x y) :=
  seen_append.trans (congrArg (Option.or · _) (seen_moved item _ _))

theorem scene_foldlM_overlay {ds : List (Design Rat)}
    (joined : ds.foldlM (Layout.overlay anchor).join base = .ok d) :
    d.width = base.width ∧ d.height = base.height ∧ ∀ x y, d.scene.picture x y =
      (shown ((ds.map Design.scene).map (anchored anchor base.width base.height)) x y).or
        (base.scene.picture x y) := by
  induction ds generalizing base with
  | nil =>
    cases joined
    exact ⟨rfl, rfl, fun _ _ => rfl⟩
  | cons item ds ih =>
    obtain ⟨next, first, others⟩ := foldlM_cons_eq_ok.1 joined
    cases first
    obtain ⟨width, height, picture⟩ := ih others
    refine ⟨width, height, ?_⟩
    intro x y
    rw [picture, picture_under, List.map_cons, List.map_cons, shown_cons, Option.or_assoc]
    rfl

/-- The box stays that of the first element, so that all others are anchored in it. -/
theorem scene_joinAll_overlay {ds : List (Design Rat)}
    (joined : (Layout.overlay anchor).joinAll ds = .ok d) :
    d.scene = (Layout.overlay anchor).scene (ds.map Design.scene) := by
  cases ds with
  | nil => cases joined
  | cons base ds =>
    obtain ⟨width, height, picture⟩ := scene_foldlM_overlay joined
    have picture : d.scene.picture = shown (((base :: ds).map Design.scene).map
        (anchored anchor base.width base.height)) := by
      funext x y
      rw [picture, List.map_cons, List.map_cons, shown_cons, ← picture_anchored_self]
      rfl
    have box : d.scene = ⟨d.width, d.height, d.scene.picture⟩ := rfl
    rw [box, width, height, picture]
    rfl

theorem scene_joinAll {layout : Layout} {ds : List (Design Rat)}
    (joined : layout.joinAll ds = .ok d) : d.scene = layout.scene (ds.map Design.scene) := by
  cases layout with
  | strip axis => exact scene_joinAll_strip joined
  | overlay anchor => exact scene_joinAll_overlay joined

end Scenes

namespace Nesting

/-- A patch of any size that lies at the origin. -/
def IsUnplacedPatch (v : Value Rat) : Prop :=
  ∃ p : Patch Rat, v = .patch p ∧ p.x = 0 ∧ p.y = 0

theorem carried_scene :
    Carried (fun _ => True) IsUnplacedPatch fun n d => d.scene = n.scene where
  value := by
    rintro v ⟨p, rfl, x, y⟩
    exact ⟨_, .patch p x y, rfl⟩
  arranged := by
    intro layout items ds d _ h joined
    have all : ds.map Design.scene = scenes items := by
      clear joined
      induction h with
      | nil => rfl
      | cons first _ ih => rw [List.map_cons, scenes, first, ih]
    rw [scene_joinAll joined, all, scene]
  turned := by
    intro target d t h
    rw [scene_turned, h, scene]
  tiled := by
    intro target d count some h
    rw [scene_joinAll (joinAll_replicate some d), List.map_replicate, h, scene]

/-- What is seen of a design that was built from patches at the origin is what the nesting says, at
every point. -/
theorem picture_of_build {n : Nesting Rat} {v : Value Rat}
    (made : n.MadeOf (fun _ => True) IsUnplacedPatch) (built : n.build = .ok v) :
    ∃ d, v.toDesign? = some d ∧ d.width = n.scene.width ∧ d.height = n.scene.height ∧
      ∀ x y, Patch.seen d.patches x y = n.scene.picture x y := by
  obtain ⟨d, stands, same⟩ := carried_scene.ensures_build made v built
  refine ⟨d, toDesign?_of_standsFor stands, ?_⟩
  rw [← same]
  exact ⟨rfl, rfl, fun _ _ => rfl⟩

section Banner

/-- Two tiles, a crossing that sticks out over its neighbours, and a patch; all turned. -/
def banner : Nesting Rat :=
  .turned .quarter
    (.arranged (.strip .horizontal)
      [.tiled 2 (.value (.patch (.unplaced 3 2 (.dyed .green)))),
        .arranged (.overlay .center)
          [.value (.patch (.unplaced 2 2 (.dyed .red))),
            .value (.patch (.unplaced 4 1 (.dyed .blue)))],
        .value (.patch (.unplaced 1 2 (.dyed .pink)))])

def bannerDesign : Design Rat :=
  ⟨2, 9, [⟨0, 0, 2, 3, .dyed .green⟩, ⟨0, 3, 2, 3, .dyed .green⟩, ⟨0, 6, 2, 2, .dyed .red⟩,
    ⟨1 / 2, 5, 1, 4, .dyed .blue⟩, ⟨0, 8, 2, 1, .dyed .pink⟩]⟩

theorem banner_made : banner.MadeOf (fun _ => True) IsUnplacedPatch := by
  have patch (w h : Rat) (c : Color) :
      MadeOf (fun _ => True) IsUnplacedPatch (.value (.patch (.unplaced w h c))) :=
    .value ⟨_, rfl, rfl, rfl⟩
  refine .turned _ (.arranged trivial (List.forall_mem_cons.2 ⟨.tiled 2 (patch 3 2 _), ?_⟩))
  refine List.forall_mem_cons.2 ⟨.arranged trivial ?_, List.forall_mem_singleton.2 (patch 1 2 _)⟩
  exact List.forall_mem_cons.2 ⟨patch 2 2 _, List.forall_mem_singleton.2 (patch 4 1 _)⟩

/-- The crossing is seen in front of the tile before it and behind the patch after it. -/
theorem banner_picture :
    banner.MadeOf (fun _ => True) IsUnplacedPatch ∧
      banner.build = .ok (.design bannerDesign) ∧
      (∀ x y, Patch.seen bannerDesign.patches x y = banner.scene.picture x y) ∧
      Patch.seen bannerDesign.patches 1 (11 / 2) = some (.dyed .blue) ∧
      Patch.seen bannerDesign.patches 1 (17 / 2) = some (.dyed .pink) := by
  have built : banner.build = .ok (.design bannerDesign) := by
    with_unfolding_all rfl
  obtain ⟨d, drawn, -, -, same⟩ := picture_of_build banner_made built
  cases drawn
  refine ⟨banner_made, built, same, ?_, ?_⟩
  · rw [same]
    with_unfolding_all rfl
  · rw [same]
    with_unfolding_all rfl

end Banner

end Nesting

end Patchwork

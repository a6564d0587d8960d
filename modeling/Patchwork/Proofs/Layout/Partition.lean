import Patchwork.Proofs.Layout.Nesting

/-!
# Partitions

Rows, columns, turns and copies of patches leave no gap and no overlap: whatever is built from
patches of positive size without overlays is a partition of its box.
-/

namespace Patchwork

namespace Patch

/-- No point is in both open rectangles. -/
def Apart (p q : Patch Rat) : Prop :=
  ∀ x y, p.Encloses x y → ¬q.Encloses x y

/-- The whole rectangle is in a box of the size. -/
structure Fits (width height : Rat) (p : Patch Rat) : Prop where
  left : 0 ≤ p.x
  right : p.x + p.width ≤ width
  top : 0 ≤ p.y
  bottom : p.y + p.height ≤ height

def area (p : Patch Rat) : Rat :=
  p.width * p.height

end Patch

/-- The patches share their box out among themselves. -/
structure Design.IsPartition (d : Design Rat) : Prop where
  wide : 0 < d.width
  high : 0 < d.height
  solid : ∀ p ∈ d.patches, 0 < p.width ∧ 0 < p.height
  fits : ∀ p ∈ d.patches, p.Fits d.width d.height
  apart : d.patches.Pairwise Patch.Apart
  covered : ∀ x y, 0 ≤ x → x ≤ d.width → 0 ≤ y → y ≤ d.height → ∃ p ∈ d.patches, p.Covers x y
  area : (d.patches.map Patch.area).sum = d.width * d.height

namespace Design

variable {d : Design Rat}

theorem isPartition_ofPatch {p : Patch Rat} (wide : 0 < p.width) (high : 0 < p.height) :
    (ofPatch p).IsPartition where
  wide := wide
  high := high
  solid := List.forall_mem_singleton.2 ⟨wide, high⟩
  fits := List.forall_mem_singleton.2
    ⟨le_refl _, le_of_eq (zero_add _), le_refl _, le_of_eq (zero_add _)⟩
  apart := List.pairwise_singleton _ _
  covered := by
    intro x y left right top bottom
    have right : x ≤ 0 + p.width := right.trans_eq (zero_add _).symm
    have bottom : y ≤ 0 + p.height := bottom.trans_eq (zero_add _).symm
    exact ⟨_, List.mem_singleton_self _, left, right, top, bottom⟩
  area := List.sum_singleton

theorem isPartition_transposed (h : d.IsPartition) : d.transposed.IsPartition where
  wide := h.high
  high := h.wide
  solid := List.forall_mem_map.2 fun p mem => (h.solid p mem).symm
  fits := by
    refine List.forall_mem_map.2 ?_
    intro p mem
    have fits := h.fits p mem
    exact ⟨fits.top, fits.bottom, fits.left, fits.right⟩
  apart := by
    refine List.pairwise_map.2 (h.apart.imp ?_)
    intro p q apart x y
    rw [Patch.encloses_transposed, Patch.encloses_transposed]
    exact apart y x
  covered := by
    intro x y left right top bottom
    obtain ⟨p, mem, covers⟩ := h.covered y x top bottom left right
    exact ⟨p.transposed, List.mem_map_of_mem mem, Patch.covers_transposed.2 covers⟩
  area := by
    have areas : d.transposed.patches.map Patch.area = d.patches.map Patch.area := by
      rw [transposed, List.map_map]
      exact List.map_congr_left fun p _ => mul_comm _ _
    rw [areas, h.area]
    exact mul_comm _ _

theorem isPartition_mirrored (h : d.IsPartition) : d.mirrored.IsPartition where
  wide := h.wide
  high := h.high
  solid := List.forall_mem_map.2 fun p mem => h.solid p mem
  fits := by
    refine List.forall_mem_map.2 ?_
    intro p mem
    obtain ⟨left, right, top, bottom⟩ := h.fits p mem
    refine ⟨?_, ?_, top, bottom⟩
    · simp only [Patch.mirrored]
      linarith
    · simp only [Patch.mirrored, mirrored]
      linarith
  apart := by
    refine List.pairwise_map.2 (h.apart.imp ?_)
    intro p q apart x y
    rw [Patch.encloses_mirrored, Patch.encloses_mirrored]
    exact apart (d.width - x) y
  covered := by
    intro x y left right top bottom
    have right : x ≤ d.width := right
    obtain ⟨p, mem, covers⟩ := h.covered (d.width - x) y (by linarith) (by linarith) top bottom
    exact ⟨p.mirrored d.width, List.mem_map_of_mem mem, Patch.covers_mirrored.2 covers⟩
  area := by
    rw [mirrored, List.map_map]
    exact h.area

/-- Two partitions side by side, where their sides meet in full. -/
theorem isPartition_beside {left right : Design Rat} (h₁ : left.IsPartition)
    (h₂ : right.IsPartition) (level : right.height = left.height) :
    (left.beside right).IsPartition where
  wide := add_pos h₁.wide h₂.wide
  high := h₁.high
  solid := by
    refine List.forall_mem_append.2 ⟨h₁.solid, List.forall_mem_map.2 ?_⟩
    exact fun p mem => h₂.solid p mem
  fits := by
    have w₁ := h₁.wide
    have w₂ := h₂.wide
    refine List.forall_mem_append.2 ⟨?_, List.forall_mem_map.2 ?_⟩
    · intro p mem
      obtain ⟨left, right, top, bottom⟩ := h₁.fits p mem
      refine ⟨left, ?_, top, bottom⟩
      simp only [beside_eq]
      linarith
    · intro p mem
      obtain ⟨left, right, top, bottom⟩ := h₂.fits p mem
      simp only [beside_eq, Patch.moved_eq]
      constructor
      · linarith
      · linarith
      · linarith
      · linarith
  apart := by
    refine List.pairwise_append.2 ⟨h₁.apart, List.pairwise_map.2 (h₂.apart.imp ?_), ?_⟩
    · intro p q apart x y
      rw [Patch.encloses_moved, Patch.encloses_moved]
      exact apart (x - left.width) (y - 0)
    -- the border between the two boxes is between the patches
    · intro p memP q' memQ' x y inP inQ
      obtain ⟨q, memQ, rfl⟩ := List.mem_map.1 memQ'
      have ends := (h₁.fits p memP).right
      have starts := (h₂.fits q memQ).left
      have before := inP.2.1
      have after := (Patch.encloses_moved.1 inQ).1
      linarith
  covered := by
    intro x y start ends top bottom
    have ends : x ≤ left.width + right.width := ends
    have bottom : y ≤ left.height := bottom
    by_cases first : x ≤ left.width
    · obtain ⟨p, mem, covers⟩ := h₁.covered x y start first top bottom
      exact ⟨p, List.mem_append_left _ mem, covers⟩
    · obtain ⟨p, mem, covers⟩ := h₂.covered (x - left.width) (y - 0) (by linarith) (by linarith)
        (by linarith) (by linarith)
      refine ⟨p.moved left.width 0, List.mem_append_right _ (List.mem_map_of_mem mem), ?_⟩
      exact Patch.covers_moved.2 covers
  area := by
    have moved : (right.moved left.width 0).map Patch.area = right.patches.map Patch.area := by
      rw [Design.moved, List.map_map]
      rfl
    rw [beside_eq, List.map_append, List.sum_append, moved, h₁.area, h₂.area, level]
    exact (add_mul _ _ _).symm

theorem isPartition_above {top bottom : Design Rat} (h₁ : top.IsPartition)
    (h₂ : bottom.IsPartition) (level : bottom.width = top.width) :
    (top.above bottom).IsPartition := by
  rw [above_eq]
  exact isPartition_transposed
    (isPartition_beside (isPartition_transposed h₁) (isPartition_transposed h₂) level)

theorem isPartition_turned (t : Turn) (h : d.IsPartition) : (d.turned t).IsPartition :=
  turned_of_symmetries (P := IsPartition) isPartition_transposed isPartition_mirrored t h

end Design

theorem isPartition_join {axis : Axis} {base item : Design Rat} (h₁ : base.IsPartition)
    (h₂ : item.IsPartition) : Ensures ((Layout.strip axis).join base item) Design.IsPartition := by
  intro d joined
  cases axis with
  | horizontal =>
    obtain ⟨level, rfl⟩ := Layout.join_horizontal_eq_ok.1 joined
    exact Design.isPartition_beside h₁ h₂ level
  | vertical =>
    obtain ⟨level, rfl⟩ := Layout.join_vertical_eq_ok.1 joined
    exact Design.isPartition_above h₁ h₂ level

def Layout.IsStrip (layout : Layout) : Prop :=
  ∃ axis, layout = .strip axis

namespace Nesting

/-- A patch of positive size that lies at the origin. -/
def IsSolidPatch (v : Value Rat) : Prop :=
  ∃ p : Patch Rat, v = .patch p ∧ p.x = 0 ∧ p.y = 0 ∧ 0 < p.width ∧ 0 < p.height

theorem carried_isPartition : Carried Layout.IsStrip IsSolidPatch fun _ d => d.IsPartition where
  value := by
    rintro v ⟨p, rfl, x, y, wide, high⟩
    exact ⟨_, .patch p x y, Design.isPartition_ofPatch wide high⟩
  arranged := by
    rintro layout items ds d ⟨axis, rfl⟩ h joined
    have partitions : ∀ d ∈ ds, d.IsPartition := by
      clear joined
      induction h with
      | nil => simp
      | cons first _ ih => exact List.forall_mem_cons.2 ⟨first, ih⟩
    exact Layout.ensures_joinAll isPartition_join partitions d joined
  turned t h := Design.isPartition_turned t h
  tiled some h := tiled_of_joined isPartition_join some h

/-- What is built without overlays from patches of positive size at the origin is a design whose
patches share out its box. -/
theorem partition_of_build {n : Nesting Rat} {v : Value Rat}
    (made : n.MadeOf Layout.IsStrip IsSolidPatch) (built : n.build = .ok v) :
    ∃ d, v.toDesign? = some d ∧ d.IsPartition := by
  obtain ⟨d, stands, partition⟩ := carried_isPartition.ensures_build made v built
  exact ⟨d, toDesign?_of_standsFor stands, partition⟩

section Sampler

/-- A column of two tiles and a turned patch, to the right of a high patch, all turned again. -/
def sampler : Nesting Rat :=
  .turned .quarter
    (.arranged (.strip .horizontal)
      [.value (.patch (.unplaced 3 5 (.dyed .red))),
        .arranged (.strip .vertical)
          [.tiled 2 (.value (.patch (.unplaced 2 1 (.dyed .blue)))),
            .turned .threeQuarter (.value (.patch (.unplaced 4 4 (.dyed .pink))))]])

def samplerDesign : Design Rat :=
  ⟨5, 7, [⟨0, 0, 5, 3, .dyed .red⟩, ⟨4, 3, 1, 2, .dyed .blue⟩, ⟨4, 5, 1, 2, .dyed .blue⟩,
    ⟨0, 3, 4, 4, .dyed .pink⟩]⟩

theorem sampler_made : sampler.MadeOf Layout.IsStrip IsSolidPatch := by
  have solid (w h : Rat) (c : Color) (wide : 0 < w) (high : 0 < h) :
      MadeOf Layout.IsStrip IsSolidPatch (.value (.patch (.unplaced w h c))) :=
    .value ⟨_, rfl, rfl, rfl, wide, high⟩
  have patch := solid 3 5 (.dyed .red) (by norm_num) (by norm_num)
  have tiles := solid 2 1 (.dyed .blue) (by norm_num) (by norm_num)
  have square := solid 4 4 (.dyed .pink) (by norm_num) (by norm_num)
  refine .turned _ (.arranged ⟨_, rfl⟩ (List.forall_mem_cons.2 ⟨patch, ?_⟩))
  refine List.forall_mem_singleton.2 (.arranged ⟨_, rfl⟩ (List.forall_mem_cons.2 ⟨?_, ?_⟩))
  · exact .tiled 2 tiles
  · exact List.forall_mem_singleton.2 (.turned .threeQuarter square)

theorem sampler_partition :
    sampler.MadeOf Layout.IsStrip IsSolidPatch ∧
      sampler.build = .ok (.design samplerDesign) ∧ samplerDesign.IsPartition := by
  have built : sampler.build = .ok (.design samplerDesign) := by
    with_unfolding_all rfl
  obtain ⟨d, drawn, partition⟩ := partition_of_build sampler_made built
  cases drawn
  exact ⟨sampler_made, built, partition⟩

end Sampler

end Nesting

end Patchwork

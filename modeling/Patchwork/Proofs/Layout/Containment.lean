import Patchwork.Proofs.Layout.Symmetry

/-!
# Containment

That all patches of a design lie in its box, up to the tolerance, is kept by strips, copies and
turns, and by overlays of designs that are no larger than the first. A box has no place of its own,
so all of this comes down to boxes that are put into larger ones; a turn does not even ask for that,
and neither makes nor mends a patch that sticks out.
-/

namespace Patchwork

namespace Patch

variable {p : Patch Rat} {width height : Rat}

theorem liesWithin_iff : p.liesWithin width height = true ↔
    -Scalar.tolerance ≤ p.x ∧ -Scalar.tolerance ≤ p.y ∧
      p.x + p.width ≤ width + Scalar.tolerance ∧ p.y + p.height ≤ height + Scalar.tolerance := by
  simp [liesWithin, and_assoc]

theorem liesWithin_transposed :
    p.transposed.liesWithin height width = true ↔ p.liesWithin width height = true := by
  rw [liesWithin_iff, liesWithin_iff]
  constructor
  · rintro ⟨top, left, bottom, right⟩
    exact ⟨left, top, right, bottom⟩
  · rintro ⟨left, top, right, bottom⟩
    exact ⟨top, left, bottom, right⟩

theorem liesWithin_mirrored :
    (p.mirrored width).liesWithin width height = true ↔ p.liesWithin width height = true := by
  rw [liesWithin_iff, liesWithin_iff]
  simp only [mirrored]
  constructor
  · rintro ⟨left, top, right, bottom⟩
    refine ⟨?_, top, ?_, bottom⟩ <;> linarith
  · rintro ⟨left, top, right, bottom⟩
    refine ⟨?_, top, ?_, bottom⟩ <;> linarith

/-- What lies in a box lies in every box into which that one is put. -/
theorem liesWithin_moved (h : p.liesWithin width height = true) {dx dy outerWidth outerHeight : Rat}
    (left : 0 ≤ dx) (right : dx + width ≤ outerWidth) (top : 0 ≤ dy)
    (bottom : dy + height ≤ outerHeight) :
    (p.moved dx dy).liesWithin outerWidth outerHeight = true := by
  rw [liesWithin_iff] at h ⊢
  obtain ⟨start, above, ends, below⟩ := h
  simp only [moved_eq]
  refine ⟨?_, ?_, ?_, ?_⟩ <;> linarith

end Patch

namespace Design

variable {d : Design Rat}

theorem isWithinBox_iff :
    d.isWithinBox = true ↔ ∀ p ∈ d.patches, p.liesWithin d.width d.height = true :=
  List.all_eq_true

theorem isWithinBox_transposed : d.transposed.isWithinBox = true ↔ d.isWithinBox = true := by
  rw [isWithinBox_iff, isWithinBox_iff, transposed, List.forall_mem_map]
  exact forall₂_congr fun p _ => Patch.liesWithin_transposed

theorem isWithinBox_mirrored : d.mirrored.isWithinBox = true ↔ d.isWithinBox = true := by
  rw [isWithinBox_iff, isWithinBox_iff, mirrored, List.forall_mem_map]
  exact forall₂_congr fun p _ => Patch.liesWithin_mirrored

theorem isWithinBox_turned (t : Turn) (d : Design Rat) :
    (d.turned t).isWithinBox = true ↔ d.isWithinBox = true :=
  turned_of_symmetries (P := fun e => e.isWithinBox = true ↔ d.isWithinBox = true)
    isWithinBox_transposed.trans isWithinBox_mirrored.trans t Iff.rfl

/-- The box is one that can be drawn, if only as a line or a point, and holds all patches. -/
structure IsFramed (d : Design Rat) : Prop where
  wide : 0 ≤ d.width
  high : 0 ≤ d.height
  contained : d.isWithinBox = true

theorem IsFramed.transposed (h : d.IsFramed) : d.transposed.IsFramed :=
  ⟨h.high, h.wide, isWithinBox_transposed.2 h.contained⟩

/-- Two framed designs in one box: the first one where it is, the second one where it fits. -/
theorem isFramed_append {lower upper : Design Rat} (h₁ : lower.IsFramed) (h₂ : upper.IsFramed)
    {dx dy width height : Rat} (wider : lower.width ≤ width) (higher : lower.height ≤ height)
    (left : 0 ≤ dx) (right : dx + upper.width ≤ width) (top : 0 ≤ dy)
    (bottom : dy + upper.height ≤ height) :
    (⟨width, height, lower.patches ++ upper.moved dx dy⟩ : Design Rat).IsFramed where
  wide := h₁.wide.trans wider
  high := h₁.high.trans higher
  contained := by
    refine isWithinBox_iff.2 (List.forall_mem_append.2 ⟨?_, List.forall_mem_map.2 ?_⟩)
    · intro p member
      have inside := isWithinBox_iff.1 h₁.contained p member
      rw [← p.moved_zero]
      apply Patch.liesWithin_moved inside le_rfl _ le_rfl _
      · rw [zero_add]
        exact wider
      · rw [zero_add]
        exact higher
    · intro p member
      have inside := isWithinBox_iff.1 h₂.contained p member
      exact Patch.liesWithin_moved inside left right top bottom

theorem isFramed_beside {left right : Design Rat} (h₁ : left.IsFramed) (h₂ : right.IsFramed)
    (level : right.height = left.height) : (left.beside right).IsFramed := by
  have w₁ := h₁.wide
  have w₂ := h₂.wide
  rw [beside_eq]
  apply isFramed_append h₁ h₂
  · linarith
  · exact le_rfl
  · exact w₁
  · exact le_rfl
  · exact le_rfl
  · rw [zero_add, level]

theorem isFramed_above {top bottom : Design Rat} (h₁ : top.IsFramed) (h₂ : bottom.IsFramed)
    (level : bottom.width = top.width) : (top.above bottom).IsFramed := by
  rw [above_eq]
  exact (isFramed_beside h₁.transposed h₂.transposed level).transposed

theorem isFramed_join_strip {axis : Axis} {base item : Design Rat} (h₁ : base.IsFramed)
    (h₂ : item.IsFramed) : Ensures ((Layout.strip axis).join base item) IsFramed := by
  intro d joined
  cases axis with
  | horizontal =>
    obtain ⟨level, rfl⟩ := Layout.join_horizontal_eq_ok.1 joined
    exact isFramed_beside h₁ h₂ level
  | vertical =>
    obtain ⟨level, rfl⟩ := Layout.join_vertical_eq_ok.1 joined
    exact isFramed_above h₁ h₂ level

end Design

/-- A box that is no larger than another one is anchored inside it. -/
theorem Anchor.offset_within (anchor : Anchor) {outerWidth outerHeight width height : Rat}
    (narrow : width ≤ outerWidth) (low : height ≤ outerHeight) :
    let place := anchor.offset outerWidth outerHeight width height
    (0 ≤ place.1 ∧ place.1 + width ≤ outerWidth) ∧
      0 ≤ place.2 ∧ place.2 + height ≤ outerHeight := by
  have start {inner outer : Rat} (fits : inner ≤ outer) : (0 : Rat) ≤ 0 ∧ 0 + inner ≤ outer :=
    ⟨le_rfl, (zero_add inner).trans_le fits⟩
  have rest {inner outer : Rat} (fits : inner ≤ outer) :
      0 ≤ outer - inner ∧ outer - inner + inner ≤ outer :=
    ⟨sub_nonneg.2 fits, (sub_add_cancel outer inner).le⟩
  have middle {inner outer : Rat} (fits : inner ≤ outer) :
      0 ≤ outer / 2 - inner / 2 ∧ outer / 2 - inner / 2 + inner ≤ outer := by
    constructor <;> linarith
  cases anchor with
  | topLeft => exact ⟨start narrow, start low⟩
  | topRight => exact ⟨rest narrow, start low⟩
  | bottomLeft => exact ⟨start narrow, rest low⟩
  | bottomRight => exact ⟨rest narrow, rest low⟩
  | center => exact ⟨middle narrow, middle low⟩

namespace Design

theorem isFramed_under {lower upper : Design Rat} (h₁ : lower.IsFramed) (h₂ : upper.IsFramed)
    (anchor : Anchor) (narrow : upper.width ≤ lower.width) (low : upper.height ≤ lower.height) :
    (lower.under anchor upper).IsFramed := by
  obtain ⟨⟨left, right⟩, top, bottom⟩ := anchor.offset_within narrow low
  exact isFramed_append h₁ h₂ le_rfl le_rfl left right top bottom

/-- The box stays that of the base, so what is no larger than the base stays so. -/
theorem isFramed_joinAll_overlay {anchor : Anchor} {base d : Design Rat} {ds : List (Design Rat)}
    (h : base.IsFramed)
    (covers : ∀ e ∈ ds, e.IsFramed ∧ e.width ≤ base.width ∧ e.height ≤ base.height)
    (joined : (Layout.overlay anchor).joinAll (base :: ds) = .ok d) : d.IsFramed := by
  change ds.foldlM (Layout.overlay anchor).join base = .ok d at joined
  induction ds generalizing base with
  | nil =>
    cases joined
    exact h
  | cons upper ds ih =>
    obtain ⟨⟨framed, narrow, low⟩, others⟩ := List.forall_mem_cons.1 covers
    obtain ⟨next, first, joined⟩ := foldlM_cons_eq_ok.1 joined
    cases first
    exact ih (isFramed_under h framed anchor narrow low) others joined

end Design

/-- Designs that lie in boxes of no negative side are laid out to designs that do so: every strip
that can be made of them, any number of copies of one, and every overlay in which no later box is
larger than the first. A turned design lies in its box if and only if the design did. -/
theorem containment_kept :
    (∀ (axis : Axis) (ds : List (Design Rat)) (d : Design Rat), (∀ e ∈ ds, e.IsFramed) →
      (Layout.strip axis).compose (ds.map .design) = .ok d → d.IsFramed) ∧
    (∀ (count : Nat) (d : Design Rat), 1 ≤ count → d.IsFramed →
      ∃ row, (Value.design d).tiled count = .ok row ∧ row.IsFramed) ∧
    (∀ (anchor : Anchor) (base : Design Rat) (ds : List (Design Rat)), base.IsFramed →
      (∀ e ∈ ds, e.IsFramed ∧ e.width ≤ base.width ∧ e.height ≤ base.height) →
      ∃ d, (Layout.overlay anchor).compose ((base :: ds).map .design) = .ok d ∧ d.IsFramed) ∧
    (∀ (t : Turn) (d : Design Rat), (d.turned t).isWithinBox = true ↔ d.isWithinBox = true) := by
  refine ⟨?_, ?_, ?_, Design.isWithinBox_turned⟩
  · intro axis ds d framed laid
    rw [Layout.compose_designs] at laid
    exact Layout.ensures_joinAll Design.isFramed_join_strip framed d laid
  · intro count d positive framed
    have some : count ≠ 0 := Nat.ne_of_gt positive
    exact ⟨_, tiled_of_standsFor some (.design d),
      tiled_of_joined Design.isFramed_join_strip some framed⟩
  · intro anchor base ds framed covers
    obtain ⟨d, joined⟩ := Layout.exists_joinAll_overlay anchor base ds
    refine ⟨d, ?_, Design.isFramed_joinAll_overlay framed covers joined⟩
    rw [Layout.compose_designs]
    exact joined

section Tray

/-- A patch in it sticks out to the left by all that is tolerated. -/
def tray : Design Rat :=
  ⟨4, 3, [⟨0, 0, 4, 3, .dyed .red⟩, ⟨-1 / 1000000000, 1, 2, 1, .dyed .blue⟩]⟩

/-- As high as the tray, but less wide. -/
def lid : Design Rat :=
  ⟨3, 3, [⟨0, 0, 3, 3, .dyed .pink⟩]⟩

def lidAndTray : Design Rat :=
  ⟨7, 3, [⟨0, 0, 3, 3, .dyed .pink⟩, ⟨3, 0, 4, 3, .dyed .red⟩,
    ⟨3 - 1 / 1000000000, 1, 2, 1, .dyed .blue⟩]⟩

theorem tray_framed : tray.IsFramed :=
  ⟨by decide, by decide, by decide +kernel⟩

theorem lid_framed : lid.IsFramed :=
  ⟨by decide, by decide, by decide +kernel⟩

theorem tray_contained :
    ((Layout.strip .horizontal).compose ([lid, tray].map .design) = .ok lidAndTray ∧
      lidAndTray.IsFramed) ∧
    (∃ row, (Value.design tray).tiled 3 = .ok row ∧ row.IsFramed) ∧
    (∃ d, (Layout.overlay .center).compose ([tray, lid].map .design) = .ok d ∧ d.IsFramed) ∧
    (tray.turned .quarter).isWithinBox = true := by
  have laid : (Layout.strip .horizontal).compose ([lid, tray].map .design) = .ok lidAndTray := by
    with_unfolding_all rfl
  have framed : ∀ e ∈ [lid, tray], e.IsFramed :=
    List.forall_mem_cons.2 ⟨lid_framed, List.forall_mem_singleton.2 tray_framed⟩
  have covers : ∀ e ∈ [lid], e.IsFramed ∧ e.width ≤ tray.width ∧ e.height ≤ tray.height :=
    List.forall_mem_singleton.2 ⟨lid_framed, by decide, by decide⟩
  obtain ⟨strips, copies, overlays, turns⟩ := containment_kept
  exact ⟨⟨laid, strips _ _ _ framed laid⟩, copies 3 tray (by decide) tray_framed,
    overlays _ _ _ tray_framed covers, (turns .quarter tray).2 tray_framed.contained⟩

end Tray

end Patchwork
